import CompressorBench.Base64
import CompressorBench.Proofs.Text.Utf8
import CompressorBench.Text.Blank

/-!
# What a base64 text is made of

A text that is read without an error holds symbols and paddings only. All of them are characters of
ASCII, and none of them is a blank, so such a text has no blank at its end that could be trimmed.

* `exists_group_of_decodedSizeBytes`: what an accepted text is made of.
* `isDigit_of_decodedSizeBytes`: every byte of an accepted text is a symbol or a padding.
* `isAscii_of_decodedSize`, `isBlank_of_decodedSize`: the same said of its characters.
-/

namespace CompressorBench.Base64

/-- Whether a byte may stand in a base64 text at all. -/
def isDigit (byte : UInt8) : Bool := isSymbol byte || byte == pad

/-! ## Bytes -/

theorem isSymbol_of_firstForeign? {start : Nat} {bytes : List UInt8}
    (h : firstForeign? start bytes = none) : ∀ byte ∈ bytes, isSymbol byte = true := by
  induction bytes generalizing start with
  | nil => simp
  | cons first rest ih =>
    rw [firstForeign?] at h
    split at h
    · next hfirst =>
      intro byte hbyte
      rcases List.mem_cons.mp hbyte with rfl | hbyte
      · exact hfirst
      · exact ih h byte hbyte
    · cases h

theorem isDigit_of_readGroup {start : Nat} {group result : Group} {bytes : List UInt8}
    (h : readGroup start group bytes = .ok result) : ∀ byte ∈ bytes, isDigit byte = true := by
  fun_induction readGroup start group bytes with
  | case1 => simp
  | case2 => cases h
  | case3 group rest _ ih =>
    intro byte hbyte
    rcases List.mem_cons.mp hbyte with rfl | hbyte
    · rfl
    · exact ih h byte hbyte
  | case4 => cases h
  | case5 group first rest _ _ hfirst ih =>
    intro byte hbyte
    rcases List.mem_cons.mp hbyte with rfl | hbyte
    · simp [isDigit, hfirst]
    · exact ih h byte hbyte
  | case6 => cases h

/-- **What an accepted text is made of**: symbols up to the last group, and a last group of at least
two symbols that is filled up to four. Only the empty text has no symbols. -/
theorem exists_group_of_decodedSizeBytes {bytes : List UInt8} {size : Nat}
    (h : decodedSizeBytes bytes = .ok size) :
    ∃ group, firstForeign? 0 (bytes.take (lastGroupStart bytes.length)) = none ∧
      readGroup (lastGroupStart bytes.length) ⟨0, 0⟩ (bytes.drop (lastGroupStart bytes.length)) =
        .ok group ∧
      (bytes ≠ [] → 2 ≤ group.symbols) ∧ (group.symbols + group.paddings) % 4 = 0 ∧
      size = lastGroupStart bytes.length / 4 * 3 + group.symbols * 6 / 8 := by
  unfold decodedSizeBytes at h
  dsimp only at h
  split at h
  · cases h
  · split at h
    · cases h
    · next hforeign =>
      cases hgroup : readGroup (lastGroupStart bytes.length) ⟨0, 0⟩
          (bytes.drop (lastGroupStart bytes.length)) with
      | error e =>
        rw [hgroup] at h
        cases h
      | ok group =>
        rw [hgroup] at h
        replace h : (if bytes ≠ [] ∧ group.symbols < 2 then _ else _) = Except.ok size := h
        split at h
        · cases h
        · next hsymbols =>
          split at h
          · cases h
          · next hfilled =>
            refine ⟨group, hforeign, rfl, fun hne => ?_, Decidable.not_not.mp hfilled,
              (Except.ok.inj h).symm⟩
            exact Nat.not_lt.mp fun hlt => hsymbols ⟨hne, hlt⟩

/-- **Every byte of an accepted text is a symbol or a padding.** -/
theorem isDigit_of_decodedSizeBytes {bytes : List UInt8} {size : Nat}
    (h : decodedSizeBytes bytes = .ok size) : ∀ byte ∈ bytes, isDigit byte = true := by
  obtain ⟨group, hforeign, hgroup, -⟩ := exists_group_of_decodedSizeBytes h
  intro byte hbyte
  rw [← List.take_append_drop (lastGroupStart bytes.length) bytes] at hbyte
  rcases List.mem_append.mp hbyte with hbyte | hbyte
  · simp [isDigit, isSymbol_of_firstForeign? hforeign byte hbyte]
  · exact isDigit_of_readGroup hgroup byte hbyte

/-- Only the empty text stands for no byte. -/
theorem pos_of_decodedSize {text : String} {size : Nat} (hne : text.toList ≠ [])
    (h : decodedSize text = .ok size) : 0 < size := by
  rw [decodedSize, Text.toList_toUTF8] at h
  obtain ⟨group, -, -, hsymbols, -, rfl⟩ := exists_group_of_decodedSizeBytes h
  have hbytes : Text.encode text.toList ≠ [] := by
    intro hnil
    rw [← Text.decodeChars_encode text.toList, hnil] at hne
    exact hne Text.decodeChars_nil
  have := hsymbols hbytes
  omega

/-! ## Characters -/

theorem lt_of_isDigit {byte : UInt8} (h : isDigit byte = true) : byte.toNat < 0x80 := by
  rw [isDigit, Bool.or_eq_true] at h
  rcases h with h | h
  · unfold isSymbol value? at h
    grind
  · rw [beq_iff_eq.mp h]
    decide

/-- No symbol and no padding is a blank. -/
theorem isBlank_of_isDigit {byte : UInt8} (h : isDigit byte = true) :
    Text.isBlank (Char.ofNat byte.toNat) = false := by
  have hall : ∀ n ∈ List.range 128, isDigit (UInt8.ofNat n) = true →
      Text.isBlank (Char.ofNat n) = false := by decide +kernel
  refine hall byte.toNat (List.mem_range.mpr (lt_of_isDigit h)) ?_
  rwa [UInt8.ofNat_toNat]

/-- A character whose first byte is one of ASCII is that byte. -/
theorem exists_byte_of_mem {cs : List Char} (h : ∀ byte ∈ Text.encode cs, isDigit byte = true)
    {c : Char} (hc : c ∈ cs) : ∃ byte, isDigit byte = true ∧ c = Char.ofNat byte.toNat := by
  have hbytes : ∀ byte ∈ String.utf8EncodeChar c, isDigit byte = true := fun byte hbyte =>
    h byte (List.mem_flatMap.mpr ⟨c, hc, hbyte⟩)
  have hsequence := Text.sequence_utf8EncodeChar c
  generalize String.utf8EncodeChar c = bytes at hbytes hsequence
  -- a lead byte of more than one byte is beyond ASCII
  have hfirst : ∀ n < 256, 0x80 ≤ n → UInt8.ofNat n ∉ bytes := by
    intro n hn hlarge hmem
    have := lt_of_isDigit (hbytes _ hmem)
    rw [UInt8.toNat_ofNat_of_lt' hn] at this
    omega
  cases hsequence with
  | one hvalue =>
    refine ⟨_, hbytes _ List.mem_cons_self, ?_⟩
    rw [UInt8.toNat_ofNat_of_lt' (show _ < 256 by omega), Char.ofNat_toNat]
  | two => exact absurd List.mem_cons_self (hfirst _ (by omega) (by omega))
  | three => exact absurd List.mem_cons_self (hfirst _ (by omega) (by omega))
  | four => exact absurd List.mem_cons_self (hfirst _ (by omega) (by omega))

theorem exists_byte_of_decodedSize {text : String} {size : Nat}
    (h : decodedSize text = .ok size) {c : Char} (hc : c ∈ text.toList) :
    ∃ byte, isDigit byte = true ∧ c = Char.ofNat byte.toNat := by
  rw [decodedSize, Text.toList_toUTF8] at h
  exact exists_byte_of_mem (isDigit_of_decodedSizeBytes h) hc

/-- An accepted text is ASCII. -/
theorem isAscii_of_decodedSize {text : String} {size : Nat} (h : decodedSize text = .ok size) :
    ∀ c ∈ text.toList, c.toNat < 0x80 := by
  intro c hc
  obtain ⟨byte, hbyte, rfl⟩ := exists_byte_of_decodedSize h hc
  have hlt := lt_of_isDigit hbyte
  rwa [Text.toNat_ofNat_char (by omega)]

/-- An accepted text holds no blank. -/
theorem isBlank_of_decodedSize {text : String} {size : Nat} (h : decodedSize text = .ok size) :
    ∀ c ∈ text.toList, Text.isBlank c = false := by
  intro c hc
  obtain ⟨byte, hbyte, rfl⟩ := exists_byte_of_decodedSize h hc
  exact isBlank_of_isDigit hbyte

end CompressorBench.Base64
