import Mathlib.Data.List.Forall2
import Treewalk.Proofs.Lexing.Munch

/-!
# Lines

Lines are counted piece by piece, and what comes of it is a count over the whole source: the line of
an item is found by counting the newline bytes from the beginning of the source up to the end of the
item, wherever they stand. Positions are positions of bytes.

## Main definitions

* `Source.bytes` — a text in UTF-8
* `Source.lineAt` — the line that one arrives at by counting
* `Source.spans` — from where to where the items of a source reach
* `Item.Stands` — an item is what the lexical grammar finds in a span

## Main results

* `Source.lines_exact` — the items of a source stand on its spans, and their lines never decrease
-/

namespace Treewalk

/-! ### Bytes -/

namespace Source

/-- A text in UTF-8. -/
def bytes (text : List Char) : List UInt8 := text.flatMap String.utf8EncodeChar

/-- The byte of a new line. -/
def newline : UInt8 := 10

/-- The line on which the first `stop` bytes end. -/
def lineAt (bytes : List UInt8) (stop : Nat) : Nat := 1 + (bytes.take stop).count newline

theorem bytes_append (text text' : List Char) : bytes (text ++ text') = bytes text ++ bytes text' :=
  List.flatMap_append

theorem bytes_cons (c : Char) (text : List Char) :
    bytes (c :: text) = String.utf8EncodeChar c ++ bytes text := List.flatMap_cons

theorem bytes_eq_nil_iff {text : List Char} : bytes text = [] ↔ text = [] := by
  cases text with
  | nil => exact iff_of_true rfl rfl
  | cons c text =>
    rw [bytes_cons, List.append_eq_nil_iff]
    exact iff_of_false (fun h => String.utf8EncodeChar_ne_nil h.1) (List.cons_ne_nil _ _)

theorem bytes_toList (source : String) : bytes source.toList = source.toUTF8.data.toList := by
  obtain ⟨text, rfl⟩ : ∃ text, source = String.ofList text := ⟨_, String.ofList_toList.symm⟩
  rw [String.toList_ofList, String.toUTF8_eq_toByteArray, String.toByteArray_ofList,
    List.utf8Encode, List.data_toByteArray]
  rfl

/-- All bytes of a character beyond ASCII are beyond ASCII. -/
theorem le_toNat_of_mem_utf8EncodeChar {c : Char} {b : UInt8} (h : b ∈ String.utf8EncodeChar c)
    (hc : 127 < c.val.toNat) : 128 ≤ b.toNat := by
  have hne : ¬c.val.toNat ≤ 127 := Nat.not_le.2 hc
  simp only [String.utf8EncodeChar, if_neg hne] at h
  split at h
  · simp only [List.mem_cons, List.not_mem_nil, or_false] at h
    obtain rfl | rfl := h <;> rw [UInt8.toNat_ofNat'] <;> omega
  · split at h
    · simp only [List.mem_cons, List.not_mem_nil, or_false] at h
      obtain rfl | rfl | rfl := h <;> rw [UInt8.toNat_ofNat'] <;> omega
    · simp only [List.mem_cons, List.not_mem_nil, or_false] at h
      obtain rfl | rfl | rfl | rfl := h <;> rw [UInt8.toNat_ofNat'] <;> omega

/-- A byte that is a character of its own stands for nothing else. -/
theorem mem_utf8EncodeChar_iff {b : UInt8} (hb : b.toNat < 128) (c : Char) :
    b ∈ String.utf8EncodeChar c ↔ c.val.toNat = b.toNat := by
  by_cases hascii : c.val.toNat ≤ 127
  · have hbyte : b = UInt8.ofNat c.val.toNat ↔ c.val.toNat = b.toNat := by
      rw [← UInt8.toNat_inj, UInt8.toNat_ofNat', Nat.mod_eq_of_lt (by omega), eq_comm]
    rw [String.utf8EncodeChar, if_pos hascii, List.mem_singleton, hbyte]
  · refine iff_of_false (fun hmem => ?_) (by omega)
    have := le_toNat_of_mem_utf8EncodeChar hmem (by omega)
    omega

theorem count_newline_utf8EncodeChar (c : Char) :
    (String.utf8EncodeChar c).count newline = if c = '\n' then 1 else 0 := by
  have hc : c = '\n' ↔ c.val.toNat = 10 := Char.toNat_inj.symm
  rw [if_congr hc rfl rfl]
  by_cases hascii : c.val.toNat ≤ 127
  · have hbyte : UInt8.ofNat c.val.toNat = newline ↔ c.val.toNat = 10 := by
      rw [← UInt8.toNat_inj, UInt8.toNat_ofNat', Nat.mod_eq_of_lt (by omega)]
      rfl
    simp only [String.utf8EncodeChar, if_pos hascii, List.count_singleton, beq_iff_eq, hbyte]
  · rw [if_neg (by omega), List.count_eq_zero]
    intro hmem
    exact absurd (le_toNat_of_mem_utf8EncodeChar hmem (by omega)) (by decide)

/-- The newline bytes of a text are its newline characters. -/
theorem count_newline_bytes (text : List Char) : (bytes text).count newline = text.count '\n' := by
  induction text with
  | nil => rfl
  | cons c text ih =>
    rw [bytes_cons, List.count_append, count_newline_utf8EncodeChar, ih, List.count_cons, Nat.add_comm]
    simp only [beq_iff_eq]

end Source

/-! ### Spans -/

/-- The bytes of a source from `start` on, up to the one before `stop`. -/
structure Span where
  start : Nat
  stop : Nat
  start_le_stop : start ≤ stop

/-- The bytes of a text that begins at `start`. -/
def Span.of (start : Nat) (text : List Char) : Span :=
  ⟨start, start + (Source.bytes text).length, Nat.le_add_right _ _⟩

/-- The spans of the pieces that become items, the first piece beginning at `start`. The end of the
input has the empty span at the end. -/
def Piece.spans (start : Nat) : List Piece → List Span
  | [] => [.of start []]
  | trivia text :: rest => Piece.spans (start + (Source.bytes text).length) rest
  | token _ text :: rest =>
    .of start text :: Piece.spans (start + (Source.bytes text).length) rest
  | fault _ text :: rest =>
    .of start text :: Piece.spans (start + (Source.bytes text).length) rest

/-- The spans of the items of a source, in order. -/
def Source.spans (source : String) : List Span := Piece.spans 0 (Piece.split source.toList)

/-- The item is what the lexical grammar finds in `text`, where `behind` follows. -/
inductive Item.IsRead : Item → (text behind : List Char) → Prop
  | token {line : Nat} {kind : Kind} {text behind : List Char}
      (h : (Piece.token kind text).Fits behind) :
      IsRead (.token ⟨kind, String.ofList text, line⟩) text behind
  | fault {line : Nat} {cause : LexicalFault} {text behind : List Char}
      (h : (Piece.fault cause text).Fits behind) : IsRead (.fault line cause) text behind
  | endOfInput {line : Nat} : IsRead (.token ⟨.endOfInput, "", line⟩) [] []

/-- The item is read from the bytes of the span. -/
def Item.Stands (source : List Char) (item : Item) (span : Span) : Prop :=
  ∃ before text behind, source = before ++ text ++ behind ∧
    span = .of (Source.bytes before).length text ∧ item.IsRead text behind

theorem Source.lineAt_stop (before text behind : List Char) :
    lineAt (bytes (before ++ text ++ behind)) (Span.of (bytes before).length text).stop =
      1 + (before ++ text).count '\n' := by
  have hstop : (Span.of (bytes before).length text).stop = (bytes (before ++ text)).length := by
    rw [bytes_append, List.length_append]
    rfl
  rw [lineAt, hstop, bytes_append (before ++ text), List.take_left, count_newline_bytes]

namespace Piece

/-- The pieces of the rest of a source give items that stand on their spans, on the lines on which
these end. -/
theorem forall₂_stands (before source : List Char) :
    List.Forall₂ (fun item span => item.Stands (before ++ source) span ∧
        item.line = Source.lineAt (Source.bytes (before ++ source)) span.stop)
      (items (1 + before.count '\n') (split source))
      (spans (Source.bytes before).length (split source)) := by
  induction source using split_induction generalizing before with
  | nil =>
    have hline := Source.lineAt_stop before [] []
    simp only [List.append_nil] at hline ⊢
    exact .cons ⟨⟨before, [], [], by simp, rfl, .endOfInput⟩, hline.symm⟩ .nil
  | cons p rest hfits ih =>
    have hrest := ih (before ++ p.text)
    have hcount : 1 + (before ++ p.text).count '\n' = 1 + before.count '\n' + p.newlines := by
      rw [List.count_append, Nat.add_assoc]
      rfl
    have hline := Source.lineAt_stop before p.text rest
    rw [Source.bytes_append before p.text, List.length_append, hcount] at hrest
    rw [hcount] at hline
    rw [← List.append_assoc]
    cases p with
    | trivia text => exact hrest
    | token kind text =>
      exact .cons ⟨⟨before, text, rest, rfl, rfl, .token hfits⟩, hline.symm⟩ hrest
    | fault cause text =>
      exact .cons ⟨⟨before, text, rest, rfl, rfl, .fault hfits⟩, hline.symm⟩ hrest

theorem le_start_of_mem_spans {start : Nat} {pieces : List Piece} {span : Span}
    (h : span ∈ spans start pieces) : start ≤ span.start := by
  induction pieces generalizing start with
  | nil =>
    obtain rfl := List.mem_singleton.1 h
    exact le_rfl
  | cons p rest ih =>
    cases p with
    | trivia text => exact (Nat.le_add_right _ _).trans (ih h)
    | token _ text | fault _ text =>
      obtain rfl | h := List.mem_cons.1 h
      · exact le_rfl
      · exact (Nat.le_add_right _ _).trans (ih h)

/-- A span begins where the one before it ends, or further on. -/
theorem pairwise_spans (start : Nat) (pieces : List Piece) :
    (spans start pieces).Pairwise fun span later => span.stop ≤ later.start := by
  induction pieces generalizing start with
  | nil => exact List.pairwise_singleton _ _
  | cons p rest ih =>
    cases p with
    | trivia text => exact ih _
    | token _ text | fault _ text =>
      exact List.pairwise_cons.2 ⟨fun later h => le_start_of_mem_spans h, ih _⟩

end Piece

namespace Source

/-- **Lines are exact.** The items of a source stand on its spans, which lie one behind the other,
and the line of each item is one more than the number of newline bytes before the end of its span.
So lines never decrease. -/
theorem lines_exact (source : String) :
    List.Forall₂ (fun item span => item.Stands source.toList span ∧
        item.line = lineAt source.toUTF8.data.toList span.stop) (items source) (spans source) ∧
    (spans source).Pairwise (fun span later => span.stop ≤ later.start) ∧
    (items source).Pairwise (fun item later => item.line ≤ later.line) := by
  have hstands := Piece.forall₂_stands [] source.toList
  have hspans : (spans source).Pairwise (fun span later => span.stop ≤ later.start) :=
    Piece.pairwise_spans 0 _
  rw [List.nil_append, bytes_toList] at hstands
  refine ⟨hstands, hspans, ?_⟩
  have hlines : (items source).map Item.line =
      (spans source).map (lineAt source.toUTF8.data.toList ·.stop) := by
    rw [← List.forall₂_eq_eq_eq, List.forall₂_map_left_iff, List.forall₂_map_right_iff]
    exact hstands.imp fun item span h => h.2
  rw [← List.pairwise_map (f := Item.line) (R := (· ≤ ·)), hlines, List.pairwise_map]
  refine hspans.imp fun {span later} hle => Nat.add_le_add_left ?_ 1
  have hstop : span.stop ≤ later.stop := hle.trans later.start_le_stop
  exact (List.take_prefix_take_left hstop).sublist.count_le newline

example : (items "/* /*\n*/\n*/ \"a\nb\" // c\n é").map Item.line = [4, 5, 5] := by cbv

end Source

end Treewalk
