import CompressorBench.Text.Utf8

/-!
# UTF-8 read and written

Decoding with replacements is the inverse of encoding, as far as there is one. The link between the
two is a table with a row for each number of bytes (`Sequence`): the value of a character is written
in base 64, with the first digit in the lead byte and one more in each continuation byte. Both
directions, and the order of texts, are read off this table.

* `decodeChars_encode`: what was encoded is decoded to itself, without a replacement.
* `encode_decodeChars`: what is decoded without a replacement was encoded.
* `encode_lt_encode`: texts are ordered as their bytes are.
-/

namespace CompressorBench.Text

/-- The bytes of a row of characters. -/
def encode (cs : List Char) : List UInt8 := cs.flatMap String.utf8EncodeChar

@[simp] theorem encode_nil : encode [] = [] := rfl

theorem encode_cons (c : Char) (cs : List Char) :
    encode (c :: cs) = String.utf8EncodeChar c ++ encode cs := List.flatMap_cons

@[simp] theorem encode_append (cs ds : List Char) : encode (cs ++ ds) = encode cs ++ encode ds :=
  List.flatMap_append

/-! ## Bytes in an array -/

theorem toList_loop (bytes : ByteArray) (i : Nat) (reversed : List UInt8)
    (h : reversed.reverse = bytes.data.toList.take i) :
    ByteArray.toList.loop bytes i reversed = bytes.data.toList := by
  fun_induction ByteArray.toList.loop bytes i reversed with
  | case1 i reversed hi ih =>
    refine ih ?_
    have hi' : i < bytes.data.toList.length := by simpa using hi
    rw [List.reverse_cons, h, List.take_succ_eq_append_getElem hi']
    congr 2
    show bytes.data[i]! = _
    rw [getElem!_pos bytes.data i (by simpa using hi), Array.getElem_toList]
  | case2 i reversed hi =>
    rw [h, List.take_of_length_le]
    have hsize : bytes.data.toList.length = bytes.size := by simp
    omega

theorem toList_eq_data (bytes : ByteArray) : bytes.toList = bytes.data.toList :=
  toList_loop bytes 0 [] (by simp)

/-- The bytes of a text are those of its characters. -/
theorem toList_toUTF8 (text : String) : text.toUTF8.toList = encode text.toList := by
  rw [toList_eq_data, encode, ← List.toList_data_toByteArray (l := text.toList.flatMap _)]
  congr 2
  exact String.utf8Encode_toList.symm

/-- An array of bytes is UTF-8 if its bytes are those of some characters. -/
theorem isValidUTF8_iff {bytes : ByteArray} :
    bytes.IsValidUTF8 ↔ ∃ cs, bytes.toList = encode cs := by
  rw [toList_eq_data]
  constructor
  · rintro ⟨cs, hcs⟩
    refine ⟨cs, ?_⟩
    rw [hcs, List.utf8Encode, List.toList_data_toByteArray, encode]
  · rintro ⟨cs, hcs⟩
    refine ⟨cs, ?_⟩
    rw [List.utf8Encode, ← encode, ← hcs]
    apply ByteArray.ext
    apply Array.toList_inj.mp
    rw [List.toList_data_toByteArray]

/-! ## The table -/

/-- **The table of UTF-8.** A character and its bytes: the digits of its value in base 64, the first
one in the lead byte. Overlong rows, surrogates and values that are too large are left out. -/
inductive Sequence : Char → List UInt8 → Prop where
  | one {c : Char} (hvalue : c.toNat < 0x80) : Sequence c [UInt8.ofNat c.toNat]
  | two {c : Char} {a b : Nat} (hvalue : c.toNat = a * 64 + b) (hlow : 2 ≤ a) (ha : a < 32)
      (hb : b < 64) : Sequence c [UInt8.ofNat (0xC0 + a), UInt8.ofNat (0x80 + b)]
  | three {c : Char} {a b d : Nat} (hvalue : c.toNat = (a * 64 + b) * 64 + d) (ha : a < 16)
      (hb : b < 64) (hd : d < 64) (hlow : a = 0 → 32 ≤ b) (hgap : a = 0xD → b < 32) :
      Sequence c [UInt8.ofNat (0xE0 + a), UInt8.ofNat (0x80 + b), UInt8.ofNat (0x80 + d)]
  | four {c : Char} {a b d e : Nat} (hvalue : c.toNat = ((a * 64 + b) * 64 + d) * 64 + e)
      (ha : a < 5) (hb : b < 64) (hd : d < 64) (he : e < 64) (hlow : a = 0 → 16 ≤ b)
      (hhigh : a = 4 → b < 16) :
      Sequence c [UInt8.ofNat (0xF0 + a), UInt8.ofNat (0x80 + b), UInt8.ofNat (0x80 + d),
        UInt8.ofNat (0x80 + e)]

/-- The values of characters leave out the surrogates. -/
theorem toNat_isValidChar (c : Char) :
    c.toNat < 0xD800 ∨ (0xDFFF < c.toNat ∧ c.toNat < 0x110000) := c.valid

/-- Every character has a row in the table. -/
theorem sequence_utf8EncodeChar (c : Char) : Sequence c (String.utf8EncodeChar c) := by
  have hvalid := toNat_isValidChar c
  -- the masks of the encoder cut off nothing, because the digits above are taken away by the case
  unfold String.utf8EncodeChar
  change Sequence c (if c.toNat ≤ 0x7f then _ else if c.toNat ≤ 0x7ff then _
    else if c.toNat ≤ 0xffff then _ else _)
  split
  · exact .one (by omega)
  · split
    · rw [show c.val.toNat / 64 % 0x20 + 0xc0 = 0xC0 + c.toNat / 64 by
          show c.toNat / 64 % 0x20 + 0xc0 = _; omega,
        show c.val.toNat % 0x40 + 0x80 = 0x80 + c.toNat % 64 from Nat.add_comm _ _]
      exact .two (by omega) (by omega) (by omega) (by omega)
    · split
      · rw [show c.val.toNat / 4096 % 0x10 + 0xe0 = 0xE0 + c.toNat / 4096 by
            show c.toNat / 4096 % 0x10 + 0xe0 = _; omega,
          show c.val.toNat / 64 % 0x40 + 0x80 = 0x80 + c.toNat / 64 % 64 from Nat.add_comm _ _,
          show c.val.toNat % 0x40 + 0x80 = 0x80 + c.toNat % 64 from Nat.add_comm _ _]
        exact .three (by omega) (by omega) (by omega) (by omega) (by omega) (by omega)
      · rw [show c.val.toNat / 262144 % 0x08 + 0xf0 = 0xF0 + c.toNat / 262144 by
            show c.toNat / 262144 % 0x08 + 0xf0 = _; omega,
          show c.val.toNat / 4096 % 0x40 + 0x80 = 0x80 + c.toNat / 4096 % 64 from
            Nat.add_comm _ _,
          show c.val.toNat / 64 % 0x40 + 0x80 = 0x80 + c.toNat / 64 % 64 from Nat.add_comm _ _,
          show c.val.toNat % 0x40 + 0x80 = 0x80 + c.toNat % 64 from Nat.add_comm _ _]
        exact .four (by omega) (by omega) (by omega) (by omega) (by omega) (by omega) (by omega)

/-- A character has one row only. -/
theorem Sequence.unique {c : Char} {bytes others : List UInt8} (h : Sequence c bytes)
    (h' : Sequence c others) : bytes = others := by
  cases h with
  | one hvalue =>
    cases h' with
    | one => rfl
    | two | three | four => omega
  | @two a b hvalue =>
    cases h' with
    | @two a' b' hvalue' =>
      rw [show a' = a by omega, show b' = b by omega]
    | one | three | four => omega
  | @three a b d hvalue =>
    cases h' with
    | @three a' b' d' hvalue' =>
      rw [show a' = a by omega, show b' = b by omega, show d' = d by omega]
    | one | two | four => omega
  | @four a b d e hvalue =>
    cases h' with
    | @four a' b' d' e' hvalue' =>
      rw [show a' = a by omega, show b' = b by omega, show d' = d by omega,
        show e' = e by omega]
    | one | two | three => omega

theorem Sequence.eq_utf8EncodeChar {c : Char} {bytes : List UInt8} (h : Sequence c bytes) :
    bytes = String.utf8EncodeChar c :=
  h.unique (sequence_utf8EncodeChar c)

/-! ## Reading a row -/

theorem lead?_two {a : Nat} (hlow : 2 ≤ a) (ha : a < 32) :
    lead? (UInt8.ofNat (0xC0 + a)) = some ⟨a, 1, 0x80, 0xBF⟩ := by
  have hall : ∀ a ∈ List.range 32, 2 ≤ a →
      lead? (UInt8.ofNat (0xC0 + a)) = some ⟨a, 1, 0x80, 0xBF⟩ := by decide
  exact hall a (List.mem_range.mpr ha) hlow

theorem lead?_three {a : Nat} (ha : a < 16) :
    lead? (UInt8.ofNat (0xE0 + a)) =
      some ⟨a, 2, if a = 0 then 0xA0 else 0x80, if a = 0xD then 0x9F else 0xBF⟩ := by
  have hall : ∀ a ∈ List.range 16, lead? (UInt8.ofNat (0xE0 + a)) =
      some ⟨a, 2, if a = 0 then 0xA0 else 0x80, if a = 0xD then 0x9F else 0xBF⟩ := by decide
  exact hall a (List.mem_range.mpr ha)

theorem lead?_four {a : Nat} (ha : a < 5) :
    lead? (UInt8.ofNat (0xF0 + a)) =
      some ⟨a, 3, if a = 0 then 0x90 else 0x80, if a = 4 then 0x8F else 0xBF⟩ := by
  have hall : ∀ a ∈ List.range 5, lead? (UInt8.ofNat (0xF0 + a)) =
      some ⟨a, 3, if a = 0 then 0x90 else 0x80, if a = 4 then 0x8F else 0xBF⟩ := by decide
  exact hall a (List.mem_range.mpr ha)

/-- The bytes that announce more than one byte are the lead bytes of the table. -/
theorem exists_digit_of_lead? {byte : UInt8} {lead : Lead} (h : lead? byte = some lead) :
    (∃ a, 2 ≤ a ∧ a < 32 ∧ byte = UInt8.ofNat (0xC0 + a)) ∨
      (∃ a < 16, byte = UInt8.ofNat (0xE0 + a)) ∨ ∃ a < 5, byte = UInt8.ofNat (0xF0 + a) := by
  have hbounds : 0xC2 ≤ byte.toNat ∧ byte.toNat ≤ 0xF4 := by
    unfold lead? at h
    grind
  have hbyte : ∀ n a, n + a = byte.toNat → byte = UInt8.ofNat (n + a) := by
    intro n a hn
    rw [hn, UInt8.ofNat_toNat]
  by_cases h1 : byte.toNat < 0xE0
  · exact .inl ⟨byte.toNat - 0xC0, by omega, by omega, hbyte _ _ (by omega)⟩
  · by_cases h2 : byte.toNat < 0xF0
    · exact .inr (.inl ⟨byte.toNat - 0xE0, by omega, hbyte _ _ (by omega)⟩)
    · exact .inr (.inr ⟨byte.toNat - 0xF0, by omega, hbyte _ _ (by omega)⟩)

theorem continuations_cons {low high b : Nat} (count : Nat) (rest : List UInt8) (hb : b < 64)
    (hlow : low ≤ 0x80 + b) (hhigh : 0x80 + b ≤ high) :
    continuations low high (count + 1) (UInt8.ofNat (0x80 + b) :: rest) =
      UInt8.ofNat (0x80 + b) :: continuations 0x80 0xBF count rest := by
  rw [continuations, if_pos]
  rw [UInt8.toNat_ofNat_of_lt' (show _ < 256 by omega)]
  simp [hlow, hhigh]

/-- A full row of continuation bytes starts with one that is in range. -/
theorem exists_digit_of_continuations {low high count : Nat} {rest : List UInt8}
    (hlow : 0x80 ≤ low) (hhigh : high ≤ 0xBF)
    (h : (continuations low high (count + 1) rest).length = count + 1) :
    ∃ b after, b < 64 ∧ low ≤ 0x80 + b ∧ 0x80 + b ≤ high ∧
      rest = UInt8.ofNat (0x80 + b) :: after ∧
      (continuations 0x80 0xBF count after).length = count := by
  cases rest with
  | nil => simp [continuations] at h
  | cons byte after =>
    rw [continuations] at h
    split at h
    · next hrange =>
      simp only [Bool.and_eq_true, decide_eq_true_eq] at hrange
      refine ⟨byte.toNat - 0x80, after, by omega, by omega, by omega, ?_, by simpa using h⟩
      rw [show 0x80 + (byte.toNat - 0x80) = byte.toNat by omega, UInt8.ofNat_toNat]
    · simp at h

@[simp] theorem continuations_zero (low high : Nat) (rest : List UInt8) :
    continuations low high 0 rest = [] := by
  rw [continuations]

@[simp] theorem joinBits_nil (bits : Nat) : joinBits bits [] = bits := rfl

theorem joinBits_cons (bits : Nat) {b : Nat} (hb : b < 64) (rest : List UInt8) :
    joinBits bits (UInt8.ofNat (0x80 + b) :: rest) = joinBits (bits * 64 + b) rest := by
  rw [joinBits, List.foldl_cons, UInt8.toNat_ofNat_of_lt' (show _ < 256 by omega),
    Nat.add_sub_cancel_left, joinBits]

/-- **A row of the table is read as its character**, whatever follows it. -/
theorem Sequence.decodeFirst_eq {c : Char} {byte : UInt8} {more : List UInt8}
    (h : Sequence c (byte :: more)) (rest : List UInt8) :
    decodeFirst byte (more ++ rest) = (c, more.length) := by
  cases h with
  | one hvalue =>
    rw [decodeFirst, UInt8.toNat_ofNat_of_lt' (show _ < 256 by omega), if_pos hvalue,
      Char.ofNat_toNat]
    rfl
  | @two a b hvalue hlow ha hb =>
    rw [decodeFirst, UInt8.toNat_ofNat_of_lt' (show _ < 256 by omega), if_neg (by omega),
      lead?_two hlow ha]
    simp only [List.cons_append, List.nil_append]
    rw [continuations_cons 0 rest hb (by omega) (by omega), joinBits_cons _ hb,
      continuations_zero, joinBits_nil, ← hvalue, Char.ofNat_toNat]
    rfl
  | @three a b d hvalue ha hb hd hlow hgap =>
    rw [decodeFirst, UInt8.toNat_ofNat_of_lt' (show _ < 256 by omega), if_neg (by omega),
      lead?_three ha]
    simp only [List.cons_append, List.nil_append]
    rw [continuations_cons 1 _ hb (by split <;> omega) (by split <;> omega),
      continuations_cons 0 rest hd (by omega) (by omega), joinBits_cons _ hb, joinBits_cons _ hd,
      continuations_zero, joinBits_nil, ← hvalue, Char.ofNat_toNat]
    rfl
  | @four a b d e hvalue ha hb hd he hlow hhigh =>
    rw [decodeFirst, UInt8.toNat_ofNat_of_lt' (show _ < 256 by omega), if_neg (by omega),
      lead?_four ha]
    simp only [List.cons_append, List.nil_append]
    rw [continuations_cons 2 _ hb (by split <;> omega) (by split <;> omega),
      continuations_cons 1 _ hd (by omega) (by omega),
      continuations_cons 0 rest he (by omega) (by omega), joinBits_cons _ hb, joinBits_cons _ hd,
      joinBits_cons _ he, continuations_zero, joinBits_nil, ← hvalue, Char.ofNat_toNat]
    rfl

theorem toNat_ofNat_char {n : Nat} (h : n < 0xD800 ∨ (0xDFFF < n ∧ n < 0x110000)) :
    (Char.ofNat n).toNat = n := by
  unfold Char.ofNat
  rw [dif_pos (show n.isValidChar from h)]
  unfold Char.ofNatAux Char.toNat
  simp

/-- What a lead byte with all its continuation bytes is read as is a row of the table. -/
theorem exists_sequence_of_lead? {byte : UInt8} {lead : Lead} {rest : List UInt8}
    (hlead : lead? byte = some lead)
    (hlength : (continuations lead.low lead.high lead.count rest).length = lead.count) :
    ∃ c more after, rest = more ++ after ∧ Sequence c (byte :: more) := by
  rcases exists_digit_of_lead? hlead with ⟨a, hlow, ha, rfl⟩ | ⟨a, ha, rfl⟩ | ⟨a, ha, rfl⟩
  · obtain rfl : _ = lead := Option.some.inj ((lead?_two hlow ha).symm.trans hlead)
    obtain ⟨b, after, hb, -, -, rfl, -⟩ :=
      exists_digit_of_continuations (Nat.le_refl _) (Nat.le_refl _) hlength
    exact ⟨Char.ofNat (a * 64 + b), [_], after, rfl,
      .two (toNat_ofNat_char (by omega)) hlow ha hb⟩
  · obtain rfl : _ = lead := Option.some.inj ((lead?_three ha).symm.trans hlead)
    dsimp only at hlength
    obtain ⟨b, after, hb, hblow, hbhigh, rfl, hrest⟩ :=
      exists_digit_of_continuations (by split <;> omega) (by split <;> omega) hlength
    obtain ⟨d, after, hd, -, -, rfl, -⟩ :=
      exists_digit_of_continuations (Nat.le_refl _) (Nat.le_refl _) hrest
    have hlow : a = 0 → 32 ≤ b := fun h => by rw [if_pos h] at hblow; omega
    have hgap : a = 0xD → b < 32 := fun h => by rw [if_pos h] at hbhigh; omega
    exact ⟨Char.ofNat ((a * 64 + b) * 64 + d), [_, _], after, rfl,
      .three (toNat_ofNat_char (by omega)) ha hb hd hlow hgap⟩
  · obtain rfl : _ = lead := Option.some.inj ((lead?_four ha).symm.trans hlead)
    dsimp only at hlength
    obtain ⟨b, after, hb, hblow, hbhigh, rfl, hrest⟩ :=
      exists_digit_of_continuations (by split <;> omega) (by split <;> omega) hlength
    obtain ⟨d, after, hd, -, -, rfl, hlast⟩ :=
      exists_digit_of_continuations (Nat.le_refl _) (Nat.le_refl _) hrest
    obtain ⟨e, after, he, -, -, rfl, -⟩ :=
      exists_digit_of_continuations (Nat.le_refl _) (Nat.le_refl _) hlast
    have hlow : a = 0 → 16 ≤ b := fun h => by rw [if_pos h] at hblow; omega
    have hhigh : a = 4 → b < 16 := fun h => by rw [if_pos h] at hbhigh; omega
    exact ⟨Char.ofNat (((a * 64 + b) * 64 + d) * 64 + e), [_, _, _], after, rfl,
      .four (toNat_ofNat_char (by omega)) ha hb hd he hlow hhigh⟩

/-- **A byte that is read without a replacement starts a row of the table.** -/
theorem exists_sequence_of_decodeFirst {byte : UInt8} {rest : List UInt8}
    (h : (decodeFirst byte rest).1 ≠ replacement) :
    ∃ c more after, rest = more ++ after ∧ Sequence c (byte :: more) := by
  unfold decodeFirst at h
  split at h
  · next hascii =>
    refine ⟨Char.ofNat byte.toNat, [], rest, rfl, ?_⟩
    have hvalue : (Char.ofNat byte.toNat).toNat = byte.toNat := toNat_ofNat_char (by omega)
    have hone := Sequence.one (c := Char.ofNat byte.toNat) (by omega)
    rwa [hvalue, UInt8.ofNat_toNat] at hone
  · split at h
    · exact absurd rfl h
    · next lead hlead =>
      dsimp only at h
      split at h
      · next hlength => exact exists_sequence_of_lead? hlead hlength
      · exact absurd rfl h

/-! ## Whole texts -/

/-- The characters that were decoded before stay in front. -/
theorem decodeFrom_eq_append (bytes : List UInt8) : ∀ decoded : List Char,
    decodeFrom decoded bytes = decoded.reverse ++ decodeChars bytes := by
  induction hlength : bytes.length using Nat.strongRecOn generalizing bytes with
  | ind n ih =>
    intro decoded
    cases bytes with
    | nil => simp [decodeChars, decodeFrom]
    | cons byte rest =>
      have hshorter : (rest.drop (decodeFirst byte rest).2).length < n := by
        rw [← hlength, List.length_drop, List.length_cons]
        omega
      have hrest := ih _ hshorter (rest.drop (decodeFirst byte rest).2) rfl
      rw [decodeChars, decodeFrom, decodeFrom, hrest, hrest [_]]
      simp

@[simp] theorem decodeChars_nil : decodeChars [] = [] := by
  rw [decodeChars, decodeFrom, List.reverse_nil]

theorem decodeChars_cons (byte : UInt8) (rest : List UInt8) :
    decodeChars (byte :: rest) =
      (decodeFirst byte rest).1 :: decodeChars (rest.drop (decodeFirst byte rest).2) := by
  rw [decodeChars, decodeFrom, decodeFrom_eq_append]
  rfl

theorem Sequence.decodeChars_append {c : Char} {bytes : List UInt8} (h : Sequence c bytes)
    (rest : List UInt8) : decodeChars (bytes ++ rest) = c :: decodeChars rest := by
  cases bytes with
  | nil => cases h
  | cons byte more =>
    rw [List.cons_append, decodeChars_cons, h.decodeFirst_eq rest, List.drop_left]

/-- **What was encoded is decoded to itself**, whatever follows it. -/
theorem decodeChars_encode_append (cs : List Char) (rest : List UInt8) :
    decodeChars (encode cs ++ rest) = cs ++ decodeChars rest := by
  induction cs with
  | nil => rfl
  | cons c cs ih =>
    rw [encode_cons, List.append_assoc, (sequence_utf8EncodeChar c).decodeChars_append, ih,
      List.cons_append]

theorem decodeChars_encode (cs : List Char) : decodeChars (encode cs) = cs := by
  simpa using decodeChars_encode_append cs []

/-- **What is decoded without a replacement was encoded.** -/
theorem encode_decodeChars (bytes : List UInt8) : replacement ∉ decodeChars bytes →
    encode (decodeChars bytes) = bytes := by
  induction hlength : bytes.length using Nat.strongRecOn generalizing bytes with
  | ind n ih =>
    intro h
    cases bytes with
    | nil => simp
    | cons byte rest =>
      -- the first character takes up a whole row, and the rest is shorter
      rw [decodeChars_cons, List.mem_cons, not_or] at h
      obtain ⟨c, more, after, rfl, hsequence⟩ :=
        exists_sequence_of_decodeFirst (fun he => h.1 he.symm)
      rw [hsequence.decodeFirst_eq after, List.drop_left] at h
      have hafter := ih after.length (by simp at hlength; omega) after rfl h.2
      rw [← List.cons_append, hsequence.decodeChars_append, encode_cons, hafter,
        ← hsequence.eq_utf8EncodeChar]

/-- Bytes that are not UTF-8 leave a replacement behind. -/
theorem replacement_mem_decodeChars {bytes : ByteArray} (h : ¬ bytes.IsValidUTF8) :
    replacement ∈ decodeChars bytes.toList := by
  refine Decidable.not_not.mp fun hnot => h ?_
  exact isValidUTF8_iff.mpr ⟨_, (encode_decodeChars _ hnot).symm⟩

/-! ## The order of texts -/

theorem ofNat_lt_ofNat {m n : Nat} (h : m < n) (hn : n < 256) : UInt8.ofNat m < UInt8.ofNat n := by
  rw [UInt8.lt_iff_toNat_lt, UInt8.toNat_ofNat_of_lt' (show _ < 256 by omega),
    UInt8.toNat_ofNat_of_lt' hn]
  exact h

theorem cons_lt_cons_of_lt {m n : Nat} (h : m < n) (hn : n < 256) (r s : List UInt8) :
    UInt8.ofNat m :: r < UInt8.ofNat n :: s :=
  List.Lex.rel (ofNat_lt_ofNat h hn)

/-- A row of the table with a smaller first digit comes first; rows of equal first digits are
compared by the rest. -/
theorem cons_lt_cons {m n : Nat} {r s : List UInt8} (hn : n < 256)
    (h : m < n ∨ (m = n ∧ r < s)) : UInt8.ofNat m :: r < UInt8.ofNat n :: s := by
  rcases h with h | ⟨rfl, h⟩
  · exact cons_lt_cons_of_lt h hn r s
  · exact List.Lex.cons h

/-- The rows of two characters are ordered as the characters are, whatever follows them. -/
theorem Sequence.lt_of_lt {c d : Char} {bytes others : List UInt8} (h : Sequence c bytes)
    (h' : Sequence d others) (hlt : c.toNat < d.toNat) (r s : List UInt8) :
    bytes ++ r < others ++ s := by
  cases h with
  | one hvalue =>
    cases h' with
    | one => exact cons_lt_cons_of_lt hlt (by omega) _ _
    | two | three | four => exact cons_lt_cons_of_lt (by omega) (by omega) _ _
  | @two a b =>
    cases h' with
    | one => omega
    | @two a' b' =>
      refine cons_lt_cons (by omega) ?_
      rcases Nat.lt_or_ge a a' with ha | ha
      · exact .inl (by omega)
      · exact .inr ⟨by omega, cons_lt_cons_of_lt (by omega) (by omega) _ _⟩
    | three | four => exact cons_lt_cons_of_lt (by omega) (by omega) _ _
  | @three a b d =>
    cases h' with
    | one | two => omega
    | @three a' b' d' =>
      refine cons_lt_cons (by omega) ?_
      rcases Nat.lt_or_ge a a' with ha | ha
      · exact .inl (by omega)
      · refine .inr ⟨by omega, cons_lt_cons (by omega) ?_⟩
        rcases Nat.lt_or_ge b b' with hb | hb
        · exact .inl (by omega)
        · exact .inr ⟨by omega, cons_lt_cons_of_lt (by omega) (by omega) _ _⟩
    | four => exact cons_lt_cons_of_lt (by omega) (by omega) _ _
  | @four a b d e =>
    cases h' with
    | one | two | three => omega
    | @four a' b' d' e' =>
      refine cons_lt_cons (by omega) ?_
      rcases Nat.lt_or_ge a a' with ha | ha
      · exact .inl (by omega)
      · refine .inr ⟨by omega, cons_lt_cons (by omega) ?_⟩
        rcases Nat.lt_or_ge b b' with hb | hb
        · exact .inl (by omega)
        · refine .inr ⟨by omega, cons_lt_cons (by omega) ?_⟩
          rcases Nat.lt_or_ge d d' with hd | hd
          · exact .inl (by omega)
          · exact .inr ⟨by omega, cons_lt_cons_of_lt (by omega) (by omega) _ _⟩

/-- **Texts are ordered as their bytes are.** -/
theorem encode_lt_encode {cs ds : List Char} (h : cs < ds) : encode cs < encode ds := by
  induction h with
  | @nil d ds =>
    rw [encode_nil, encode_cons]
    cases hbytes : String.utf8EncodeChar d with
    | nil => exact absurd hbytes String.utf8EncodeChar_ne_nil
    | cons byte more => exact List.Lex.nil
  | @cons c cs ds _ ih =>
    rw [encode_cons, encode_cons]
    exact List.append_left_lt ih
  | @rel c cs d ds hlt =>
    rw [encode_cons, encode_cons]
    exact (sequence_utf8EncodeChar c).lt_of_lt (sequence_utf8EncodeChar d)
      (UInt32.lt_iff_toNat_lt.mp hlt) _ _

end CompressorBench.Text
