import Mathlib.Data.String.Basic

/-!
# Texts as bytes

Texts are compared character by character, and stored as bytes. The bytes of a greater character are
greater, whatever comes after them, so both ways of comparing come to the same.

* `Text.bytes`: the bytes of a text in UTF-8.
* `Text.bytes_lt_bytes_iff`: the order of texts is that of their bytes.
* `Text.bytes_prefix_bytes_iff`: one text begins with another if its bytes do.
-/

namespace Metamatch.Text

/-- The bytes of a text in UTF-8. -/
def bytes (text : String) : List UInt8 := text.toByteArray.data.toList

theorem bytes_eq_flatMap (text : String) :
    bytes text = text.toList.flatMap String.utf8EncodeChar := by
  rw [bytes, ← String.utf8Encode_toList, List.utf8Encode, List.data_toByteArray]

/-! ## Characters -/

theorem ofNat_lt_ofNat {m n : Nat} (hm : m < 256) (hn : n < 256) :
    UInt8.ofNat m < UInt8.ofNat n ↔ m < n := by
  rw [UInt8.lt_iff_toNat_lt, UInt8.toNat_ofNat_of_lt' hm, UInt8.toNat_ofNat_of_lt' hn]

theorem ofNat_eq_ofNat {m n : Nat} (hm : m < 256) (hn : n < 256) :
    UInt8.ofNat m = UInt8.ofNat n ↔ m = n := by
  rw [← UInt8.toNat_inj, UInt8.toNat_ofNat_of_lt' hm, UInt8.toNat_ofNat_of_lt' hn]

/-- **The bytes of a greater character are greater, whatever comes after them.** -/
theorem utf8EncodeChar_append_lt {c d : Char} (h : c < d) (rest rest' : List UInt8) :
    String.utf8EncodeChar c ++ rest < String.utf8EncodeChar d ++ rest' := by
  have hlt : c.val.toNat < d.val.toNat := UInt32.lt_iff_toNat_lt.1 h
  have hd : d.val.toNat < 0x110000 := by
    rcases d.valid with h | ⟨-, h⟩
    · exact h.trans (by decide)
    · exact h
  -- bytes after the first hold digits to the base 64, the last of which come last
  have hthree : ∀ n, n / 4096 = n / 64 / 64 := fun n => by omega
  have hfour : ∀ n, n / 262144 = n / 64 / 64 / 64 := fun n => by omega
  unfold String.utf8EncodeChar
  generalize c.val.toNat = m at *
  generalize d.val.toNat = n at *
  dsimp only
  split_ifs <;>
    simp (disch := omega) only [List.cons_append, List.nil_append, List.cons_lt_cons_iff,
      ofNat_lt_ofNat, ofNat_eq_ofNat, hthree, hfour] <;>
    omega

/-! ## Texts -/

theorem bytes_lt_bytes {a b : String} (h : a < b) : bytes a < bytes b := by
  rw [String.lt_iff_toList_lt] at h
  rw [bytes_eq_flatMap, bytes_eq_flatMap]
  generalize a.toList = as at h ⊢
  generalize b.toList = bs at h ⊢
  induction as generalizing bs with
  | nil =>
    cases bs with
    | nil => exact absurd h (List.lt_irrefl _)
    | cons d bs =>
      obtain ⟨first, rest, hfirst⟩ :=
        List.exists_cons_of_ne_nil (String.utf8EncodeChar_ne_nil (c := d))
      rw [List.flatMap_cons, hfirst]
      exact List.nil_lt_cons _ _
  | cons c as ih =>
    cases bs with
    | nil => exact absurd h (List.not_lt_nil _)
    | cons d bs =>
      rw [List.flatMap_cons, List.flatMap_cons]
      rcases List.cons_lt_cons_iff.1 h with hlt | ⟨rfl, hrest⟩
      · exact utf8EncodeChar_append_lt hlt _ _
      · exact List.append_left_lt (ih bs hrest)

/-- **The order of texts is that of their bytes.** -/
theorem bytes_lt_bytes_iff {a b : String} : bytes a < bytes b ↔ a < b := by
  refine ⟨fun h => ?_, bytes_lt_bytes⟩
  rcases lt_trichotomy a b with hlt | rfl | hgt
  · exact hlt
  · exact absurd h (List.lt_irrefl _)
  · exact absurd h (List.lt_asymm (bytes_lt_bytes hgt))

theorem bytes_le_bytes_iff {a b : String} : bytes a ≤ bytes b ↔ a ≤ b := by
  rw [← List.not_lt, bytes_lt_bytes_iff, not_lt]

theorem bytes_prefix_bytes_iff {a b : String} : bytes a <+: bytes b ↔ a.toList <+: b.toList := by
  constructor
  · rintro ⟨rest, hrest⟩
    have happend : a.toList.utf8Encode ++ rest.toByteArray = b.toList.utf8Encode := by
      rw [bytes_eq_flatMap, bytes_eq_flatMap] at hrest
      refine ByteArray.ext ?_
      rw [ByteArray.data_append, List.utf8Encode, List.utf8Encode, List.data_toByteArray,
        List.data_toByteArray, List.data_toByteArray, List.append_toArray, hrest]
    exact List.isPrefix_of_utf8Encode_append_eq_utf8Encode _ happend
  · rintro ⟨rest, hrest⟩
    rw [bytes_eq_flatMap, bytes_eq_flatMap, ← hrest, List.flatMap_append]
    exact List.prefix_append _ _

end Metamatch.Text
