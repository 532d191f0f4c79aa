import Mathlib

/-!
# The order of texts

Texts are ordered as the sequences of their code points. In UTF-8 a code point is a sequence of one
to four bytes, and the bytes of a smaller code point are smaller whatever follows them: a longer
sequence starts with a larger byte, and within one length the bytes are the digits of the code
point, the most significant first. So texts may as well be compared byte by byte.
-/

namespace HostScript

namespace Text

/-- The code points of a text. -/
def codePoints (s : String) : List Nat :=
  s.toList.map Char.toNat

/-- The bytes of a text in UTF-8. -/
def bytes (s : String) : List Nat :=
  s.toUTF8.data.toList.map UInt8.toNat

section Words

variable {α β : Type} [LinearOrder α] [LinearOrder β] {word : α → List β}

/-- Words for letters keep the lexicographic order, if those for a smaller letter are
smaller whatever follows. -/
theorem flatMap_lt_flatMap (hword : ∀ a b, a < b → ∀ as bs, word a ++ as < word b ++ bs)
    (hne : ∀ a, word a ≠ []) {as bs : List α} (h : as < bs) :
    as.flatMap word < bs.flatMap word := by
  induction as generalizing bs with
  | nil =>
    cases bs with
    | nil => exact absurd h (lt_irrefl _)
    | cons b bs =>
      obtain ⟨x, xs, hx⟩ := List.exists_cons_of_ne_nil (hne b)
      rw [List.flatMap_nil, List.flatMap_cons, hx, List.cons_append]
      exact List.nil_lt_cons x _
  | cons a as ih =>
    cases bs with
    | nil => exact absurd h (List.not_lt_nil _)
    | cons b bs =>
      rw [List.flatMap_cons, List.flatMap_cons]
      rcases List.cons_lt_cons_iff.mp h with hlt | ⟨rfl, hlt⟩
      · exact hword a b hlt _ _
      · exact List.append_left_lt (ih hlt)

/-- Texts over such words are ordered as the texts over the letters. -/
theorem flatMap_lt_flatMap_iff (hword : ∀ a b, a < b → ∀ as bs, word a ++ as < word b ++ bs)
    (hne : ∀ a, word a ≠ []) {as bs : List α} : as.flatMap word < bs.flatMap word ↔ as < bs := by
  refine ⟨fun h => ?_, flatMap_lt_flatMap hword hne⟩
  rcases lt_trichotomy as bs with hlt | rfl | hgt
  · exact hlt
  · exact absurd h (lt_irrefl _)
  · exact absurd h (lt_asymm (flatMap_lt_flatMap hword hne hgt))

end Words

/-- The bytes of a character: one up to 127, two up to 2047, three up to 65535, four from there
on. -/
def charBytes (c : Char) : List Nat :=
  if c.toNat ≤ 127 then [c.toNat]
  else if c.toNat ≤ 2047 then [c.toNat / 64 + 192, c.toNat % 64 + 128]
  else if c.toNat ≤ 65535 then [c.toNat / 4096 + 224, c.toNat / 64 % 64 + 128, c.toNat % 64 + 128]
  else [c.toNat / 262144 + 240, c.toNat / 4096 % 64 + 128, c.toNat / 64 % 64 + 128,
    c.toNat % 64 + 128]

theorem toNat_lt_limit (c : Char) : c.toNat < 1114112 := by
  rcases c.valid with h | ⟨-, h⟩
  · exact Nat.lt_trans h (by decide)
  · exact h

/-- The bytes of a character are those of its encoding. -/
theorem map_utf8EncodeChar (c : Char) :
    (String.utf8EncodeChar c).map UInt8.toNat = charBytes c := by
  have hlimit := toNat_lt_limit c
  have hval : c.val.toNat = c.toNat := rfl
  simp only [String.utf8EncodeChar, charBytes, hval]
  -- The first byte has room for all the digits that are left to it.
  split_ifs <;>
    simp only [List.map_cons, List.map_nil, UInt8.toNat_ofNat', List.cons.injEq, and_true] <;> omega

/-- The bytes of a text are those of its characters, one after the other. -/
theorem bytes_eq_flatMap (s : String) : bytes s = s.toList.flatMap charBytes := by
  have hutf8 : s.toUTF8 = s.toList.utf8Encode := by
    rw [← String.toByteArray_ofList, String.ofList_toList]
    rfl
  rw [bytes, hutf8, List.utf8Encode, List.toList_data_toByteArray, List.map_flatMap]
  exact congrArg s.toList.flatMap (funext map_utf8EncodeChar)

/-- The bytes of a smaller character are smaller, whatever follows. -/
theorem charBytes_append_lt {c d : Char} (h : c < d) (cs ds : List Nat) :
    charBytes c ++ cs < charBytes d ++ ds := by
  have hlt : c.toNat < d.toNat := h
  have hlimit := toNat_lt_limit d
  unfold charBytes
  split_ifs <;> simp only [List.cons_append, List.nil_append, List.cons_lt_cons_iff] <;> omega

theorem charBytes_ne_nil (c : Char) : charBytes c ≠ [] := by
  unfold charBytes
  split_ifs <;> exact List.cons_ne_nil _ _

/-- Texts are ordered as their sequences of code points. -/
theorem lt_iff_codePoints_lt {s t : String} : s < t ↔ codePoints s < codePoints t := by
  have hsingle : ∀ u : String, codePoints u = u.toList.flatMap fun c => [c.toNat] := fun u =>
    (List.flatMap_pure_eq_map _ _).symm
  rw [String.lt_iff_toList_lt, hsingle, hsingle]
  refine (flatMap_lt_flatMap_iff (fun a b hlt as bs => ?_) fun a => List.cons_ne_nil _ _).symm
  exact List.cons_lt_cons_iff.mpr (.inl hlt)

/-- Texts are ordered as their sequences of bytes. -/
theorem lt_iff_bytes_lt {s t : String} : s < t ↔ bytes s < bytes t := by
  rw [String.lt_iff_toList_lt, bytes_eq_flatMap, bytes_eq_flatMap]
  exact (flatMap_lt_flatMap_iff (fun a b => charBytes_append_lt) charBytes_ne_nil).symm

end Text

end HostScript
