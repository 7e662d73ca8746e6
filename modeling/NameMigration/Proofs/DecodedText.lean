import NameMigration.Proofs.ByteOffsets

/-!
Reading back a text from its bytes. The first byte of a character says how many follow, and six bits of
the code point stand in each of those. A code point has only one form, so its bytes are always in the
range that its first byte leaves open.
-/

namespace NameMigration

namespace Utf8

variable {c : Char}

/-! ### Bytes that are given as numbers -/

theorem toNat_ofNat_of_lt {value : Nat} (isByte : value < 256) : (UInt8.ofNat value).toNat = value := by
  rw [UInt8.toNat_ofNat', Nat.mod_eq_of_lt isByte]

theorem ofNat_lt_iff {value : Nat} (isByte : value < 256) (bound : UInt8) :
    UInt8.ofNat value < bound ↔ value < bound.toNat := by
  rw [UInt8.lt_iff_toNat_lt, toNat_ofNat_of_lt isByte]

theorem ofNat_eq_iff {value : Nat} (isByte : value < 256) (other : UInt8) :
    UInt8.ofNat value = other ↔ value = other.toNat := by
  rw [← UInt8.toNat_inj, toNat_ofNat_of_lt isByte]

theorem ofByte?_ofNat {value : Nat} (isByte : value < 256) : Lead.ofByte? (UInt8.ofNat value) =
    if value < 0x80 then some ⟨0, 0, 0, value⟩
    else if value < 0xc2 then none
    else if value < 0xe0 then some ⟨1, 0x80, 0xbf, value - 0xc0⟩
    else if value = 0xe0 then some ⟨2, 0xa0, 0xbf, 0⟩
    else if value = 0xed then some ⟨2, 0x80, 0x9f, 0xd⟩
    else if value < 0xf0 then some ⟨2, 0x80, 0xbf, value - 0xe0⟩
    else if value = 0xf0 then some ⟨3, 0x90, 0xbf, 0⟩
    else if value < 0xf4 then some ⟨3, 0x80, 0xbf, value - 0xf0⟩
    else if value = 0xf4 then some ⟨3, 0x80, 0x8f, 4⟩
    else none := by
  simp only [Lead.ofByte?, ofNat_lt_iff isByte, ofNat_eq_iff isByte, toNat_ofNat_of_lt isByte]
  rfl

/-! ### The first byte -/

theorem exists_lead_two (codePoint : Nat) (small : 127 < codePoint) (large : codePoint ≤ 2047) :
    ∃ low high, Lead.ofByte? (UInt8.ofNat (codePoint / 64 % 32 + 192)) =
        some ⟨1, low, high, codePoint / 64⟩ ∧
      low.toNat ≤ codePoint % 64 + 128 ∧ codePoint % 64 + 128 ≤ high.toNat := by
  have front : codePoint / 64 % 32 + 192 - 192 = codePoint / 64 := by omega
  rw [ofByte?_ofNat (by omega), if_neg (by omega), if_neg (by omega), if_pos (by omega), front]
  exact ⟨_, _, rfl, by simp, by simp; omega⟩

theorem exists_lead_three (codePoint : Nat) (small : 2047 < codePoint) (large : codePoint ≤ 65535)
    (noSurrogate : codePoint < 0xd800 ∨ 0xdfff < codePoint) :
    ∃ low high, Lead.ofByte? (UInt8.ofNat (codePoint / 4096 % 16 + 224)) =
        some ⟨2, low, high, codePoint / 4096⟩ ∧
      low.toNat ≤ codePoint / 64 % 64 + 128 ∧ codePoint / 64 % 64 + 128 ≤ high.toNat := by
  rw [ofByte?_ofNat (by omega), if_neg (by omega), if_neg (by omega), if_neg (by omega)]
  -- The range of the next byte is narrower at shorter forms and in front of the surrogates.
  by_cases first : codePoint / 4096 = 0
  · rw [if_pos (by omega), first]
    exact ⟨_, _, rfl, by simp; omega, by simp; omega⟩
  · by_cases thirteenth : codePoint / 4096 = 0xd
    · rw [if_neg (by omega), if_pos (by omega), thirteenth]
      exact ⟨_, _, rfl, by simp, by simp; omega⟩
    · have front : codePoint / 4096 % 16 + 224 - 224 = codePoint / 4096 := by omega
      rw [if_neg (by omega), if_neg (by omega), if_pos (by omega), front]
      exact ⟨_, _, rfl, by simp, by simp; omega⟩

theorem exists_lead_four (codePoint : Nat) (small : 65535 < codePoint) (large : codePoint < 0x110000) :
    ∃ low high, Lead.ofByte? (UInt8.ofNat (codePoint / 262144 % 8 + 240)) =
        some ⟨3, low, high, codePoint / 262144⟩ ∧
      low.toNat ≤ codePoint / 4096 % 64 + 128 ∧ codePoint / 4096 % 64 + 128 ≤ high.toNat := by
  rw [ofByte?_ofNat (by omega), if_neg (by omega), if_neg (by omega), if_neg (by omega),
    if_neg (by omega), if_neg (by omega), if_neg (by omega)]
  by_cases first : codePoint / 262144 = 0
  · rw [if_pos (by omega), first]
    exact ⟨_, _, rfl, by simp; omega, by simp; omega⟩
  · by_cases last : codePoint / 262144 = 4
    · rw [if_neg (by omega), if_neg (by omega), if_pos (by omega), last]
      exact ⟨_, _, rfl, by simp, by simp; omega⟩
    · have front : codePoint / 262144 % 8 + 240 - 240 = codePoint / 262144 := by omega
      rw [if_neg (by omega), if_pos (by omega), front]
      exact ⟨_, _, rfl, by simp, by simp; omega⟩

/-! ### The bytes behind -/

theorem takeFollowers_cons {low high : UInt8} (count bits value : Nat) (rest : Bytes)
    (fits : low.toNat ≤ value % 64 + 128 ∧ value % 64 + 128 ≤ high.toNat) :
    takeFollowers (count + 1) low high bits (UInt8.ofNat (value % 64 + 128) :: rest) =
      takeFollowers count 0x80 0xbf (bits * 64 + value % 64) rest := by
  have spelled : (UInt8.ofNat (value % 64 + 128)).toNat = value % 64 + 128 :=
    toNat_ofNat_of_lt (by omega)
  have behind : (value % 64 + 128) % 64 = value % 64 := by omega
  simp only [takeFollowers, UInt8.le_iff_toNat_le, spelled, if_pos fits, behind]

theorem takeFollowers_cons_any (count bits value : Nat) (rest : Bytes) :
    takeFollowers (count + 1) 0x80 0xbf bits (UInt8.ofNat (value % 64 + 128) :: rest) =
      takeFollowers count 0x80 0xbf (bits * 64 + value % 64) rest :=
  takeFollowers_cons count bits value rest (by simp; omega)

/-! ### Characters and texts -/

theorem isScalar_toNat (c : Char) : c.toNat < 0xd800 ∨ 0xdfff < c.toNat ∧ c.toNat < 0x110000 :=
  c.valid

theorem front_of_lead {byte : UInt8} {followers bits : Nat} {low high : UInt8} {behind rest : Bytes}
    (lead : Lead.ofByte? byte = some ⟨followers, low, high, bits⟩)
    (taken : takeFollowers followers low high bits behind = (some c.toNat, rest)) :
    front byte behind = (some c, rest) := by
  simp only [front, lead, taken, Option.map_some, Char.ofNat_toNat]

theorem exists_front (c : Char) (rest : Bytes) : ∃ byte behind,
    String.utf8EncodeChar c ++ rest = byte :: behind ∧ front byte behind = (some c, rest) := by
  have scalar := isScalar_toNat c
  have value : c.val.toNat = c.toNat := rfl
  simp only [String.utf8EncodeChar, value]
  split
  · have lead : Lead.ofByte? (UInt8.ofNat c.toNat) = some ⟨0, 0, 0, c.toNat⟩ := by
      rw [ofByte?_ofNat (by omega), if_pos (by omega)]
    exact ⟨_, _, List.singleton_append, front_of_lead lead rfl⟩
  · split
    · obtain ⟨low, high, lead, fits⟩ := exists_lead_two c.toNat (by omega) (by omega)
      refine ⟨_, _, List.cons_append, front_of_lead lead ?_⟩
      rw [List.singleton_append, takeFollowers_cons _ _ _ _ fits, takeFollowers]
      congr 2
      omega
    · split
      · obtain ⟨low, high, lead, fits⟩ :=
          exists_lead_three c.toNat (by omega) (by omega) (by omega)
        refine ⟨_, _, List.cons_append, front_of_lead lead ?_⟩
        rw [List.cons_append, takeFollowers_cons _ _ _ _ fits, List.singleton_append,
          takeFollowers_cons_any, takeFollowers]
        congr 2
        omega
      · obtain ⟨low, high, lead, fits⟩ := exists_lead_four c.toNat (by omega) (by omega)
        refine ⟨_, _, List.cons_append, front_of_lead lead ?_⟩
        rw [List.cons_append, takeFollowers_cons _ _ _ _ fits, List.cons_append,
          takeFollowers_cons_any, List.singleton_append, takeFollowers_cons_any, takeFollowers]
        congr 2
        omega

theorem characters_utf8 (text : Text) : characters text.utf8 = text.map some := by
  induction text with
  | nil => rw [Text.utf8, List.flatMap_nil, characters, List.map_nil]
  | cons c rest ih =>
      obtain ⟨byte, behind, spelled, read⟩ := exists_front c (Text.utf8 rest)
      rw [Text.utf8_cons, spelled, characters, read, ih, List.map_cons]

/-- A written text is read back. -/
theorem decodeLossy_utf8 (text : Text) : decodeLossy text.utf8 = text := by
  simp [decodeLossy, characters_utf8, List.map_map, Function.comp_def]

end Utf8

end NameMigration
