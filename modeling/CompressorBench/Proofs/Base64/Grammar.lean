import CompressorBench.Proofs.Base64.Symbols

/-!
# The grammar of base64 texts

The reading rules look at the length, at all bytes before the last group, and at the last group, one
after the other. Together they come to one grammar: symbols, and behind them at most two paddings
that fill up the last group of four. Every group stands for three bytes, less the paddings, whatever
the bits of the last symbol are that belong to no byte.

* `decodedSizeBytes_eq_ok_iff`: the bytes that are accepted, and their sizes.
* `decodedSize_encode`: the canonical text of some bytes has their number as its size.
-/

namespace CompressorBench.Base64

/-! ## The last group -/

/-- A group that is read is symbols and then paddings. -/
theorem exists_append_of_readGroup {start : Nat} {group result : Group} {bytes : List UInt8}
    (h : readGroup start group bytes = .ok result) :
    ∃ body pads, bytes = body ++ List.replicate pads pad ∧
      (∀ byte ∈ body, isSymbol byte = true) ∧ (0 < group.paddings → body = []) ∧
      result = ⟨group.symbols + body.length, group.paddings + pads⟩ := by
  fun_induction readGroup start group bytes with
  | case1 => exact ⟨[], 0, rfl, by simp, fun _ => rfl, (Except.ok.inj h).symm⟩
  | case2 => cases h
  | case3 group rest _ ih =>
    obtain ⟨body, pads, rfl, -, hnil, rfl⟩ := ih h
    obtain rfl := hnil (Nat.succ_pos group.paddings)
    refine ⟨[], pads + 1, rfl, by simp, fun _ => rfl, ?_⟩
    simp only [List.length_nil, Group.mk.injEq, true_and]
    omega
  | case4 => cases h
  | case5 group byte rest _ hpaddings hbyte ih =>
    obtain ⟨body, pads, rfl, hbody, -, rfl⟩ := ih h
    refine ⟨byte :: body, pads, rfl, ?_, fun hpos => absurd hpos hpaddings, ?_⟩
    · intro other hother
      rcases List.mem_cons.mp hother with rfl | hother
      · exact hbyte
      · exact hbody other hother
    · simp only [List.length_cons, Group.mk.injEq, and_true]
      omega
  | case6 => cases h

theorem readGroup_symbols {start symbols : Nat} {body rest : List UInt8}
    (h : ∀ byte ∈ body, isSymbol byte = true) :
    readGroup start ⟨symbols, 0⟩ (body ++ rest) =
      readGroup start ⟨symbols + body.length, 0⟩ rest := by
  induction body generalizing symbols with
  | nil => rfl
  | cons byte body ih =>
    have hbyte := h byte List.mem_cons_self
    have hne : byte ≠ pad := by
      rintro rfl
      rw [isSymbol_pad] at hbyte
      cases hbyte
    rw [List.cons_append, readGroup, if_neg hne, if_neg (Nat.lt_irrefl 0), if_pos hbyte,
      ih fun other hother => h other (List.mem_cons_of_mem byte hother), List.length_cons,
      Nat.add_right_comm, Nat.add_assoc]

theorem readGroup_paddings {start symbols paddings pads : Nat} (h : 2 ≤ symbols) :
    readGroup start ⟨symbols, paddings⟩ (List.replicate pads pad) =
      .ok ⟨symbols, paddings + pads⟩ := by
  induction pads generalizing paddings with
  | zero => rfl
  | succ pads ih =>
    have hfew : ¬ symbols + paddings < 2 := by omega
    rw [List.replicate_succ, readGroup, if_pos rfl, if_neg hfew, ih, Nat.add_assoc,
      Nat.add_comm 1]

/-! ## All bytes -/

theorem firstForeign?_eq_none {start : Nat} {bytes : List UInt8}
    (h : ∀ byte ∈ bytes, isSymbol byte = true) : firstForeign? start bytes = none := by
  induction bytes generalizing start with
  | nil => rfl
  | cons byte rest ih =>
    rw [firstForeign?, if_pos (h byte List.mem_cons_self)]
    exact ih fun other hother => h other (List.mem_cons_of_mem byte hother)

/-- Nothing is wrong with symbols up to a last group that is filled up. -/
theorem decodedSizeBytes_of_group {front last : List UInt8} {group : Group}
    (hstart : lastGroupStart (front ++ last).length = front.length)
    (hfour : (front ++ last).length % 4 = 0) (hfront : ∀ byte ∈ front, isSymbol byte = true)
    (hgroup : readGroup front.length ⟨0, 0⟩ last = .ok group)
    (hsymbols : front ++ last ≠ [] → 2 ≤ group.symbols)
    (hfilled : (group.symbols + group.paddings) % 4 = 0) :
    decodedSizeBytes (front ++ last) = .ok (front.length / 4 * 3 + group.symbols * 6 / 8) := by
  have hstray : strayEnd? (front ++ last) = none := if_neg (by omega)
  have hfew : ¬ (front ++ last ≠ [] ∧ group.symbols < 2) := fun h =>
    Nat.not_lt.mpr (hsymbols h.1) h.2
  simp only [decodedSizeBytes, hstart, List.take_left, List.drop_left, hstray,
    firstForeign?_eq_none hfront, hgroup]
  show (if front ++ last ≠ [] ∧ group.symbols < 2 then _ else if _ then _ else _) = _
  rw [if_neg hfew, if_neg fun hne => hne hfilled]

/-- What is accepted is symbols and paddings; the last group tells how many of each. -/
theorem exists_append_of_decodedSizeBytes {bytes : List UInt8} {size : Nat}
    (h : decodedSizeBytes bytes = .ok size) :
    ∃ body pads, bytes = body ++ List.replicate pads pad ∧
      (∀ byte ∈ body, isSymbol byte = true) ∧ pads ≤ 2 ∧ bytes.length % 4 = 0 ∧
      size = 3 * bytes.length / 4 - pads := by
  have hstart : lastGroupStart bytes.length = (bytes.length - 1) / 4 * 4 := rfl
  obtain ⟨group, hforeign, hgroup, hsymbols, hfilled, rfl⟩ := exists_group_of_decodedSizeBytes h
  obtain ⟨body, pads, hlast, hbody, -, rfl⟩ := exists_append_of_readGroup hgroup
  have hall := List.take_append_drop (lastGroupStart bytes.length) bytes
  rw [hlast, ← List.append_assoc] at hall
  have hlength := congrArg List.length hlast
  simp only [List.length_drop, List.length_append, List.length_replicate] at hlength
  simp only [Nat.zero_add] at hsymbols hfilled ⊢
  refine ⟨_, pads, hall.symm, ?_, ?_⟩
  · intro byte hbyte
    rcases List.mem_append.mp hbyte with hbyte | hbyte
    · exact isSymbol_of_firstForeign? hforeign byte hbyte
    · exact hbody byte hbyte
  · rcases Nat.eq_zero_or_pos bytes.length with hzero | hpos
    · omega
    · have := hsymbols (List.length_pos_iff.mp hpos)
      omega

/-- A last group of symbols and paddings is read. -/
theorem readGroup_append {start pads : Nat} {symbols : List UInt8}
    (h : ∀ byte ∈ symbols, isSymbol byte = true) (hpads : 0 < pads → 2 ≤ symbols.length) :
    readGroup start ⟨0, 0⟩ (symbols ++ List.replicate pads pad) = .ok ⟨symbols.length, pads⟩ := by
  rw [readGroup_symbols h, Nat.zero_add]
  cases pads with
  | zero => simp [readGroup]
  | succ pads => rw [readGroup_paddings (hpads (Nat.succ_pos pads)), Nat.zero_add]

/-- Symbols and paddings that fill up the last group are accepted. -/
theorem decodedSizeBytes_append {body : List UInt8} {pads : Nat}
    (hbody : ∀ byte ∈ body, isSymbol byte = true) (hpads : pads ≤ 2)
    (hfour : (body.length + pads) % 4 = 0) :
    decodedSizeBytes (body ++ List.replicate pads pad) =
      .ok (3 * (body.length + pads) / 4 - pads) := by
  -- the symbols are cut where the last group starts
  obtain ⟨front, symbols, rfl, hfront⟩ : ∃ front symbols, body = front ++ symbols ∧
      front.length = (body.length + pads - 1) / 4 * 4 :=
    ⟨_, _, (List.take_append_drop _ body).symm, List.length_take_of_le (by omega)⟩
  rw [List.length_append] at hfour hfront ⊢
  have hlength : (front ++ (symbols ++ List.replicate pads pad)).length =
      front.length + symbols.length + pads := by
    simp only [List.length_append, List.length_replicate, Nat.add_assoc]
  have hgroup : readGroup front.length ⟨0, 0⟩ (symbols ++ List.replicate pads pad) =
      .ok ⟨symbols.length, pads⟩ :=
    readGroup_append (fun byte hbyte => hbody byte (List.mem_append_right front hbyte)) (by omega)
  have hsymbols : front ++ (symbols ++ List.replicate pads pad) ≠ [] → 2 ≤ symbols.length := by
    intro hne
    have := List.length_pos_iff.mpr hne
    omega
  rw [List.append_assoc, decodedSizeBytes_of_group (by rw [hlength]; exact hfront.symm)
    (by rwa [hlength]) (fun byte hbyte => hbody byte (List.mem_append_left symbols hbyte)) hgroup
    hsymbols (show (symbols.length + pads) % 4 = 0 by omega)]
  congr 1
  show front.length / 4 * 3 + symbols.length * 6 / 8 = _
  omega

/-- **The bytes that are accepted** are symbols and at most two paddings that fill up the last group
of four, and a group stands for three bytes, less the paddings. -/
theorem decodedSizeBytes_eq_ok_iff {bytes : List UInt8} {size : Nat} :
    decodedSizeBytes bytes = .ok size ↔
      ∃ body pads, bytes = body ++ List.replicate pads pad ∧
        (∀ byte ∈ body, isSymbol byte = true) ∧ pads ≤ 2 ∧ bytes.length % 4 = 0 ∧
        size = 3 * bytes.length / 4 - pads := by
  constructor
  · exact exists_append_of_decodedSizeBytes
  · rintro ⟨body, pads, rfl, hbody, hpads, hfour, rfl⟩
    rw [List.length_append, List.length_replicate] at hfour ⊢
    exact decodedSizeBytes_append hbody hpads hfour

/-! ## Characters -/

/-- The alphabet, each symbol at its value. -/
def alphabet : List Char :=
  "ABCDEFGHIJKLMNOPQRSTUVWXYZabcdefghijklmnopqrstuvwxyz0123456789+/".toList

theorem isSymbol_iff_mem_alphabet {byte : UInt8} :
    isSymbol byte = true ↔ Char.ofNat byte.toNat ∈ alphabet := by
  have hall : ∀ n ∈ List.range 256, isSymbol (UInt8.ofNat n) = true ↔ Char.ofNat n ∈ alphabet := by
    decide +kernel
  have := hall byte.toNat (List.mem_range.mpr byte.toNat_lt)
  rwa [UInt8.ofNat_toNat] at this

theorem lt_of_mem_alphabet {c : Char} (h : c ∈ alphabet) : c.toNat < 0x80 := by
  have hall : alphabet.all (fun c => decide (c.toNat < 0x80)) = true := by decide +kernel
  exact of_decide_eq_true (List.all_eq_true.mp hall c h)

theorem isAscii_append_replicate {body : List Char} (h : ∀ c ∈ body, c ∈ alphabet) (pads : Nat) :
    ∀ c ∈ body ++ List.replicate pads '=', c.toNat < 0x80 := by
  intro c hc
  rcases List.mem_append.mp hc with hc | hc
  · exact lt_of_mem_alphabet (h c hc)
  · rw [List.eq_of_mem_replicate hc]
    decide

/-- Characters of ASCII take one byte each. -/
theorem encode_of_isAscii {cs : List Char} (h : ∀ c ∈ cs, c.toNat < 0x80) :
    Text.encode cs = cs.map fun c => UInt8.ofNat c.toNat := by
  induction cs with
  | nil => rfl
  | cons c cs ih =>
    rw [Text.encode_cons, ih fun d hd => h d (List.mem_cons_of_mem c hd), List.map_cons]
    have hone := (Text.Sequence.one (h c List.mem_cons_self)).eq_utf8EncodeChar
    rw [← hone]
    rfl

theorem toNat_byte_of_isAscii {c : Char} (h : c.toNat < 0x80) :
    (UInt8.ofNat c.toNat).toNat = c.toNat :=
  UInt8.toNat_ofNat_of_lt' (show _ < 256 by omega)

theorem ofNat_byte_of_isAscii {c : Char} (h : c.toNat < 0x80) :
    Char.ofNat (UInt8.ofNat c.toNat).toNat = c := by
  rw [toNat_byte_of_isAscii h, Char.ofNat_toNat]

/-- A text has as many bytes as its characters take together. -/
theorem length_encode_toList (text : String) :
    (Text.encode text.toList).length = text.utf8ByteSize := by
  rw [← Text.toList_toUTF8, Text.toList_eq_data]
  rfl

/-- **The texts that are accepted, and their sizes.** -/
theorem decodedSize_eq_ok_iff {text : String} {size : Nat} :
    decodedSize text = .ok size ↔
      ∃ body pads, text.toList = body ++ List.replicate pads '=' ∧ (∀ c ∈ body, c ∈ alphabet) ∧
        pads ≤ 2 ∧ text.utf8ByteSize % 4 = 0 ∧ size = 3 * text.utf8ByteSize / 4 - pads := by
  constructor
  · intro h
    have hascii := isAscii_of_decodedSize h
    rw [decodedSize, Text.toList_toUTF8, decodedSizeBytes_eq_ok_iff, length_encode_toList] at h
    obtain ⟨bytes, pads, hbytes, hsymbols, hpads, hfour, hsize⟩ := h
    rw [encode_of_isAscii hascii, List.map_eq_append_iff] at hbytes
    obtain ⟨body, tail, htext, rfl, htail⟩ := hbytes
    rw [htext] at hascii
    have hequals : tail = List.replicate pads '=' := by
      rw [List.eq_replicate_iff] at htail ⊢
      refine ⟨by simpa using htail.1, fun c hc => ?_⟩
      have hpad := htail.2 _ (List.mem_map_of_mem hc)
      have hc' := ofNat_byte_of_isAscii (hascii c (List.mem_append_right body hc))
      rw [hpad] at hc'
      exact hc'.symm
    refine ⟨body, pads, htext.trans (by rw [hequals]), fun c hc => ?_, hpads, hfour, hsize⟩
    have hsymbol := isSymbol_iff_mem_alphabet.mp (hsymbols _ (List.mem_map_of_mem hc))
    rwa [ofNat_byte_of_isAscii (hascii c (List.mem_append_left tail hc))] at hsymbol
  · rintro ⟨body, pads, htext, hbody, hpads, hfour, rfl⟩
    have hascii : ∀ c ∈ text.toList, c.toNat < 0x80 := by
      rw [htext]
      exact isAscii_append_replicate hbody pads
    rw [decodedSize, Text.toList_toUTF8, decodedSizeBytes_eq_ok_iff, length_encode_toList]
    refine ⟨body.map fun c => UInt8.ofNat c.toNat, pads, ?_, ?_, hpads, hfour, rfl⟩
    · rw [encode_of_isAscii hascii, htext, List.map_append, List.map_replicate]
      rfl
    · intro byte hbyte
      obtain ⟨c, hc, rfl⟩ := List.mem_map.mp hbyte
      rw [isSymbol_iff_mem_alphabet, ofNat_byte_of_isAscii (lt_of_mem_alphabet (hbody c hc))]
      exact hbody c hc

/-! ## Texts that are rejected -/

/-- Ways in which a text is no base64. -/
inductive IsMalformed (cs : List Char) : Prop where
  | blank {c : Char} (hmem : c ∈ cs) (hblank : Text.isBlank c = true)
  /-- The two symbols of the alphabet for addresses that the standard alphabet does not have. -/
  | urlSymbol {c : Char} (hmem : c ∈ cs) (hurl : c = '-' ∨ c = '_')
  | unfilled (hlength : cs.length % 4 ≠ 0)
  | innerPadding {front rest : List Char} {c : Char} (hsplit : cs = front ++ '=' :: c :: rest)
      (hne : c ≠ '=')
  | onlyPadding {front rest : List Char} (hsplit : cs = front ++ '=' :: '=' :: '=' :: '=' :: rest)

/-- Behind a padding stand only paddings, fewer than there are in all. -/
theorem all_equals_of_append {body front rest : List Char} {pads : Nat}
    (hbody : ∀ c ∈ body, c ∈ alphabet)
    (h : body ++ List.replicate pads '=' = front ++ '=' :: rest) :
    (∀ c ∈ rest, c = '=') ∧ rest.length < pads := by
  induction body generalizing front with
  | nil =>
    rw [List.nil_append] at h
    have hall : ∀ c ∈ rest, c ∈ List.replicate pads '=' := fun c hc => by
      rw [h]
      exact List.mem_append_right front (List.mem_cons_of_mem '=' hc)
    have hlength := congrArg List.length h
    simp only [List.length_replicate, List.length_append, List.length_cons] at hlength
    exact ⟨fun c hc => List.eq_of_mem_replicate (hall c hc), by omega⟩
  | cons first body ih =>
    cases front with
    | nil =>
      obtain ⟨rfl, -⟩ := List.cons.inj h
      exact absurd (hbody '=' List.mem_cons_self) (by decide)
    | cons other front =>
      exact ih (fun c hc => hbody c (List.mem_cons_of_mem first hc)) (List.cons.inj h).2

theorem length_of_decodedSize {text : String} {size : Nat} (h : decodedSize text = .ok size) :
    text.toList.length = text.utf8ByteSize := by
  rw [← length_encode_toList, encode_of_isAscii (isAscii_of_decodedSize h), List.length_map]

theorem decodedSize_of_isMalformed {text : String} (h : IsMalformed text.toList) :
    ∃ error, decodedSize text = .error error := by
  cases hsize : decodedSize text with
  | error error => exact ⟨error, rfl⟩
  | ok size =>
    have hlength := length_of_decodedSize hsize
    have hblanks := isBlank_of_decodedSize hsize
    obtain ⟨body, pads, htext, hbody, hpads, hfour, -⟩ := decodedSize_eq_ok_iff.mp hsize
    exfalso
    cases h with
    | blank hmem hblank =>
      rw [hblanks _ hmem] at hblank
      cases hblank
    | @urlSymbol c hmem hurl =>
      have hnot : c ∉ alphabet ∧ c ≠ '=' := by rcases hurl with rfl | rfl <;> decide
      rw [htext] at hmem
      rcases List.mem_append.mp hmem with hmem | hmem
      · exact hnot.1 (hbody c hmem)
      · exact hnot.2 (List.eq_of_mem_replicate hmem)
    | unfilled hrest => omega
    | innerPadding hsplit hne =>
      obtain ⟨hall, -⟩ := all_equals_of_append hbody (htext.symm.trans hsplit)
      exact hne (hall _ List.mem_cons_self)
    | onlyPadding hsplit =>
      obtain ⟨-, hfew⟩ := all_equals_of_append hbody (htext.symm.trans hsplit)
      simp only [List.length_cons] at hfew
      omega

/-! ## Canonical texts -/

/-- The symbol of a value below 64. -/
def symbol (value : Nat) : Char := alphabet.getD value '='

/-- The canonical text for some bytes. Three bytes are four symbols of six bits each; the bits that
the last symbol has too many are zero, and paddings fill up the last group. -/
def encodeChars : List UInt8 → List Char
  | [] => []
  | [a] => [symbol (a.toNat / 4), symbol (a.toNat % 4 * 16), '=', '=']
  | [a, b] =>
    [symbol (a.toNat / 4), symbol (a.toNat % 4 * 16 + b.toNat / 16), symbol (b.toNat % 16 * 4), '=']
  | a :: b :: c :: rest =>
    symbol (a.toNat / 4) :: symbol (a.toNat % 4 * 16 + b.toNat / 16) ::
      symbol (b.toNat % 16 * 4 + c.toNat / 64) :: symbol (c.toNat % 64) :: encodeChars rest

/-- The canonical base64 text for some bytes. -/
def encode (bytes : List UInt8) : String := String.ofList (encodeChars bytes)

theorem symbol_mem_alphabet {value : Nat} (h : value < 64) : symbol value ∈ alphabet := by
  have hall : ∀ value ∈ List.range 64, symbol value ∈ alphabet := by decide
  exact hall value (List.mem_range.mpr h)

/-- A canonical text is symbols and paddings, with four characters for every three bytes begun. -/
theorem exists_encodeChars (bytes : List UInt8) :
    ∃ body pads, encodeChars bytes = body ++ List.replicate pads '=' ∧
      (∀ c ∈ body, c ∈ alphabet) ∧ pads ≤ 2 ∧ (encodeChars bytes).length % 4 = 0 ∧
      3 * (encodeChars bytes).length / 4 = bytes.length + pads := by
  fun_induction encodeChars bytes with
  | case1 => exact ⟨[], 0, rfl, by simp, by omega, rfl, rfl⟩
  | case2 a =>
    have ha := a.toNat_lt
    refine ⟨[symbol (a.toNat / 4), symbol (a.toNat % 4 * 16)], 2, rfl, ?_, by omega, by simp,
      by simp⟩
    simp only [List.forall_mem_cons, List.not_mem_nil]
    exact ⟨symbol_mem_alphabet (by omega), symbol_mem_alphabet (by omega), by simp⟩
  | case3 a b =>
    have ha := a.toNat_lt
    have hb := b.toNat_lt
    refine ⟨[symbol (a.toNat / 4), symbol (a.toNat % 4 * 16 + b.toNat / 16),
      symbol (b.toNat % 16 * 4)], 1, rfl, ?_, by omega, by simp, by simp⟩
    simp only [List.forall_mem_cons, List.not_mem_nil]
    exact ⟨symbol_mem_alphabet (by omega), symbol_mem_alphabet (by omega),
      symbol_mem_alphabet (by omega), by simp⟩
  | case4 a b c rest ih =>
    have ha := a.toNat_lt
    have hb := b.toNat_lt
    have hc := c.toNat_lt
    obtain ⟨body, pads, hsplit, hbody, hpads, hfour, hsize⟩ := ih
    refine ⟨symbol (a.toNat / 4) :: symbol (a.toNat % 4 * 16 + b.toNat / 16) ::
      symbol (b.toNat % 16 * 4 + c.toNat / 64) :: symbol (c.toNat % 64) :: body, pads, ?_, ?_,
      hpads, ?_, ?_⟩
    · rw [hsplit]
      rfl
    · simp only [List.forall_mem_cons]
      exact ⟨symbol_mem_alphabet (by omega), symbol_mem_alphabet (by omega),
        symbol_mem_alphabet (by omega), symbol_mem_alphabet (by omega), hbody⟩
    · simp only [List.length_cons]
      omega
    · simp only [List.length_cons]
      omega

/-- **The canonical text of some bytes has their number as its size.** -/
theorem decodedSize_encode (bytes : List UInt8) :
    decodedSize (encode bytes) = .ok bytes.length := by
  obtain ⟨body, pads, hsplit, hbody, hpads, hfour, hsize⟩ := exists_encodeChars bytes
  have hascii : ∀ c ∈ encodeChars bytes, c.toNat < 0x80 := by
    rw [hsplit]
    exact isAscii_append_replicate hbody pads
  have hlength : (encode bytes).utf8ByteSize = (encodeChars bytes).length := by
    rw [← length_encode_toList, encode, String.toList_ofList, encode_of_isAscii hascii,
      List.length_map]
  rw [decodedSize_eq_ok_iff, hlength]
  exact ⟨body, pads, by rw [encode, String.toList_ofList, hsplit], hbody, hpads, hfour, by omega⟩

example : encode "hello world".toUTF8.toList = "aGVsbG8gd29ybGQ=" := by decide +kernel

/-- **One grammar is accepted, and its size is exact.** A text is base64 if it is symbols of the
alphabet and at most two paddings whose bytes fill up groups of four; its size does not depend on
which symbols they are. Blanks, symbols of other alphabets, missing paddings and paddings elsewhere
are rejected. Only the empty text has no size, and canonical texts have the size of what they stand
for. -/
theorem decodedSize_grammar :
    (∀ text size, decodedSize text = .ok size ↔
      ∃ body pads, text.toList = body ++ List.replicate pads '=' ∧ (∀ c ∈ body, c ∈ alphabet) ∧
        pads ≤ 2 ∧ text.utf8ByteSize % 4 = 0 ∧ size = 3 * text.utf8ByteSize / 4 - pads) ∧
    (∀ text, IsMalformed text.toList → ∃ error, decodedSize text = .error error) ∧
    decodedSize "" = .ok 0 ∧
    (∀ text size, decodedSize text = .ok size → text ≠ "" → 1 ≤ size) ∧
    ∀ bytes, decodedSize (encode bytes) = .ok bytes.length := by
  refine ⟨fun _ _ => decodedSize_eq_ok_iff, fun _ => decodedSize_of_isMalformed,
    decodedSize_encode [], fun text size hsize hne => ?_, decodedSize_encode⟩
  exact pos_of_decodedSize (fun hnil => hne (String.toList_eq_nil_iff.mp hnil)) hsize

end CompressorBench.Base64
