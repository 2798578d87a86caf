import Treewalk.Proofs.Lexing.Bytewise

/-!
# Bytes and characters of a source

What a scanner that looks at bytes learns about characters. An ASCII character is one byte, and that
byte is in no other character, so a text up to an ASCII character has the bytes up to its code.
Where a text ends there is a character boundary, and what is cut out between two boundaries is the
text between them.

## Main results

* `Bytewise.eq_code_iff` — the code of an ASCII character is in no other character
* `Bytewise.exists_utf8EncodeChar_eq` — which bytes of a character are continuation bytes
* `Bytewise.takeWhile_bytes` — the bytes in front that satisfy a condition are those of a text
* `Bytewise.run_slice` — a text that stands in the source is cut out by its positions
-/

namespace Treewalk

namespace Bytewise

open Source (bytes)

/-! ### Bytes of characters -/

theorem utf8EncodeChar_of_ascii {c : Char} (h : c.toNat < 128) :
    String.utf8EncodeChar c = [code c] := by
  have hle : c.val.toNat ≤ 127 := Nat.le_of_lt_succ h
  rw [String.utf8EncodeChar, if_pos hle]
  rfl

theorem toNat_letter (b : UInt8) : (letter b).toNat = b.toNat := by
  have hb : b.toNat < 256 := b.toNat_lt
  have hvalid : b.toNat.isValidChar := .inl (by omega)
  rw [letter, Char.ofNat, dif_pos hvalid]
  rfl

theorem letter_code {c : Char} (h : c.toNat < 128) : letter (code c) = c := by
  rw [letter, code, UInt8.toNat_ofNat', Nat.mod_eq_of_lt (by omega), Char.ofNat_toNat]

theorem toNat_code {c : Char} (h : c.toNat < 128) : (code c).toNat = c.toNat := by
  rw [← toNat_letter, letter_code h]

/-- A question with one answer for all characters beyond ASCII can be asked of a byte. -/
theorem letter_of_mem {α : Type} {q : Char → α} {answer : α}
    (hq : ∀ c, 128 ≤ c.toNat → q c = answer) {c : Char} {b : UInt8}
    (hb : b ∈ String.utf8EncodeChar c) : q (letter b) = q c := by
  by_cases hc : c.toNat < 128
  · rw [utf8EncodeChar_of_ascii hc, List.mem_singleton] at hb
    rw [hb, letter_code hc]
  · have hletter : 128 ≤ (letter b).toNat := by
      rw [toNat_letter]
      exact Source.le_toNat_of_mem_utf8EncodeChar hb (Nat.lt_of_succ_le (Nat.le_of_not_lt hc))
    rw [hq c (Nat.le_of_not_lt hc), hq _ hletter]

theorem eq_code_iff {c d : Char} {b : UInt8} (hd : d.toNat < 128)
    (hb : b ∈ String.utf8EncodeChar c) : b = code d ↔ c = d := by
  have hcode := toNat_code hd
  constructor
  · rintro rfl
    rw [Source.mem_utf8EncodeChar_iff (by omega), hcode] at hb
    exact Char.toNat_inj.1 hb
  · rintro rfl
    rwa [utf8EncodeChar_of_ascii hd, List.mem_singleton] at hb

theorem isContinuation_ofNat (n : Nat) :
    isContinuation (UInt8.ofNat n) ↔ 128 ≤ n % 256 ∧ n % 256 < 192 := by
  have h : ∀ b : UInt8, isContinuation b ↔ 128 ≤ b.toNat ∧ b.toNat < 192 := by
    rintro ⟨⟨n⟩⟩
    revert n
    decide +kernel
  rw [h, UInt8.toNat_ofNat']

/-- Behind the first byte of a character there are continuation bytes only. -/
theorem exists_utf8EncodeChar_eq (c : Char) : ∃ b tail, String.utf8EncodeChar c = b :: tail ∧
    ¬isContinuation b ∧ ∀ b' ∈ tail, isContinuation b' := by
  have hc : c.val.toNat < 1114112 := by
    obtain h | h : c.val.toNat < 55296 ∨ 57343 < c.val.toNat ∧ c.val.toNat < 1114112 := c.valid
    all_goals omega
  simp only [String.utf8EncodeChar]
  split_ifs
  · exact ⟨_, [], rfl, by rw [isContinuation_ofNat]; omega, nofun⟩
  all_goals
    refine ⟨_, _, rfl, by rw [isContinuation_ofNat]; omega, fun b' hb' => ?_⟩
    simp only [List.mem_cons, List.not_mem_nil, or_false] at hb'
    obtain rfl | rfl | rfl := hb'
    all_goals
      rw [isContinuation_ofNat]
      omega

theorem bytes_cons_of_ascii {c : Char} (h : c.toNat < 128) (text : List Char) :
    bytes (c :: text) = code c :: bytes text := by
  rw [Source.bytes_cons, utf8EncodeChar_of_ascii h]
  rfl

/-- What holds of the first character of a text holds of its first byte. -/
theorem headD_bytes {p : UInt8 → Bool} {q : Char → Bool} (hzero : p 0 = false)
    (h : ∀ c, ∀ b ∈ String.utf8EncodeChar c, p b = q c) (text : List Char) :
    p ((bytes text).headD 0) = text.head?.any q := by
  cases text with
  | nil => exact hzero
  | cons c text =>
    obtain ⟨b, tail, heq, -⟩ := exists_utf8EncodeChar_eq c
    rw [Source.bytes_cons, heq]
    exact h c b (heq ▸ List.mem_cons_self)

theorem takeWhile_bytes {p : UInt8 → Bool} {q : Char → Bool}
    (h : ∀ c, ∀ b ∈ String.utf8EncodeChar c, p b = q c) (text : List Char) :
    (bytes text).takeWhile p = bytes (text.takeWhile q) := by
  induction text with
  | nil => rfl
  | cons c text ih =>
    rw [Source.bytes_cons]
    cases hq : q c with
    | true =>
      rw [List.takeWhile_append_of_pos fun b hb => by rw [h c b hb, hq], ih,
        List.takeWhile_cons_of_pos hq, Source.bytes_cons]
    | false =>
      obtain ⟨b, tail, heq, -⟩ := exists_utf8EncodeChar_eq c
      have hb : ¬p b := by
        rw [h c b (heq ▸ List.mem_cons_self), hq]
        exact Bool.false_ne_true
      rw [List.takeWhile_cons_of_neg (by simp [hq]), heq, List.cons_append,
        List.takeWhile_cons_of_neg hb]
      rfl

theorem head?_bytes_eq_some_iff {d : Char} (hd : d.toNat < 128) (text : List Char) :
    (bytes text).head? = some (code d) ↔ text.head? = some d := by
  cases text with
  | nil => exact iff_of_false nofun nofun
  | cons c text =>
    obtain ⟨b, tail, heq, -⟩ := exists_utf8EncodeChar_eq c
    rw [Source.bytes_cons, heq, List.cons_append, List.head?_cons, List.head?_cons,
      Option.some_inj, Option.some_inj, eq_code_iff hd (heq ▸ List.mem_cons_self)]

theorem headD_bytes_eq_iff {d : Char} (hd : d.toNat < 128) (hzero : d.toNat ≠ 0)
    (text : List Char) : (bytes text).headD 0 = code d ↔ text.head? = some d := by
  have hne : 0 ≠ code d := fun heq => hzero (by rw [← toNat_code hd, ← heq]; rfl)
  rw [← head?_bytes_eq_some_iff hd, List.headD_eq_head?_getD, Option.getD_eq_iff]
  exact ⟨fun h => h.resolve_right fun h => hne h.2, .inl⟩

theorem bytes_singleton {c : Char} (h : c.toNat < 128) : bytes [c] = [code c] :=
  bytes_cons_of_ascii h []

theorem ne_code_eq {d : Char} (hd : d.toNat < 128) (c : Char) (b : UInt8)
    (hb : b ∈ String.utf8EncodeChar c) : (b != code d) = (c != d) := by
  rw [Bool.eq_iff_iff, bne_iff_ne, bne_iff_ne, ne_eq, ne_eq, eq_code_iff hd hb]

/-- The bytes up to an ASCII character are those of the text up to it. -/
theorem takeWhile_ne_bytes {d : Char} {text rest : List Char} (hd : d.toNat < 128)
    (htext : d ∉ text) (hrest : ∀ c ∈ rest.head?, c = d) :
    (bytes (text ++ rest)).takeWhile (· != code d) = bytes text := by
  have hne : ∀ c ∈ text, (c != d) = true := fun c hc => bne_iff_ne.2 fun heq => htext (heq ▸ hc)
  have hstop : ∀ c ∈ rest.head?, ¬(c != d) = true := fun c hc => by simp [hrest c hc]
  rw [takeWhile_bytes (ne_code_eq hd) (text ++ rest), (Lexeme.span_append hne hstop).1]

/-! ### Parts of a source -/

section Parts

variable {before text behind : List Char}

theorem toList_toByteArray (text : List Char) :
    (String.ofList text).toByteArray.data.toList = bytes text := by
  rw [← String.toUTF8_eq_toByteArray, ← Source.bytes_toList, String.toList_ofList]

theorem rawEndPos_ofList (text : List Char) :
    (String.ofList text).rawEndPos = ⟨(bytes text).length⟩ := by
  rw [← toList_toByteArray, Array.length_toList]
  rfl

/-- Behind the characters of a text there is a character boundary. -/
theorem isValid_length_bytes {source : String} (h : source = String.ofList (before ++ behind)) :
    (⟨(bytes before).length⟩ : String.Pos.Raw).IsValid source := by
  rw [h, ← rawEndPos_ofList, String.ofList_append]
  exact String.Pos.Raw.isValid_rawEndPos.append_right _

theorem extract_eq {source : String} (h : source = String.ofList (before ++ text ++ behind))
    {start stop : source.Pos} (hstart : start.offset = ⟨(bytes before).length⟩)
    (hstop : stop.offset = ⟨(bytes (before ++ text)).length⟩) :
    source.extract start stop = String.ofList text := by
  have hsource : source.toByteArray.data.toList = bytes before ++ bytes text ++ bytes behind := by
    rw [h, toList_toByteArray, Source.bytes_append, Source.bytes_append]
  apply String.toByteArray_inj.1
  apply ByteArray.ext
  apply Array.toList_inj.1
  rw [String.toByteArray_extract, ByteArray.data_extract, Array.toList_extract, toList_toByteArray,
    hsource, hstart, hstop]
  simp [List.extract, Source.bytes_append]

theorem run_slice {s : Head} {start stop : Nat}
    (h : s.source = String.ofList (before ++ text ++ behind))
    (hstart : start = (bytes before).length) (hstop : stop = (bytes (before ++ text)).length) :
    (slice start stop).run s = pure (String.ofList text, s) := by
  subst hstart hstop
  have hbefore := isValid_length_bytes (h.trans (congrArg String.ofList (List.append_assoc _ _ _)))
  have htext := isValid_length_bytes h
  have hle : (bytes before).length ≤ (bytes (before ++ text)).length := by
    rw [Source.bytes_append, List.length_append]
    exact Nat.le_add_right _ _
  rw [slice, StateT.run_bind, StateT.run_get, pure_bind, dif_pos ⟨hle, hbefore, htext⟩,
    extract_eq h rfl rfl]
  rfl

end Parts

end Bytewise

end Treewalk
