/-
# `IshGo.Shell.Lexers` — the lexers of the two shells

`parseWords` of `internal/runtime/shell.go` goes through a line byte by byte, `lex` of
`internal/terminal/shell.go` rune by rune; otherwise they are the same loop, `Lexer.step`.  Of
invalid UTF-8 a rune is U+FFFD for one byte, so there the words differ.
-/
import IshGo.Lib.Quoting

namespace IshGo.Shell

open Lib List

variable {b : UInt8} {c : Char}

def byteMarks : Marks UInt8 :=
  { backslash := 0x5c, single := 0x27, double := 0x22, space := 0x20, tab := 0x09, newline := 0x0a,
    single_ne_double := by decide }

def runeMarks : Marks Char :=
  { backslash := '\\', single := '\'', double := '"', space := ' ', tab := '\t', newline := '\n',
    single_ne_double := by decide }

def parseWords (line : List UInt8) : Except String (List (List UInt8)) :=
  let s := Lexer.scan byteMarks (fun ch => [ch]) line
  if s.escaped ∨ s.quote ≠ none then .error "unterminated escape or quote"
  else .ok s.flush.args

/-! ## Runes -/

/-- The rune at the front, and its width; bytes that are no rune are skipped one at a time. -/
def decodeRune (s : List UInt8) : Char × Nat :=
  match s.toByteArray.utf8DecodeChar? 0 with
  | some r => (r, r.utf8Size)
  | none => ('�', 1)

def runesAfter : Nat → List UInt8 → List Char
  | _, [] => []
  | skip + 1, _ :: s => runesAfter skip s
  | 0, b :: s => (decodeRune (b :: s)).1 :: runesAfter ((decodeRune (b :: s)).2 - 1) s

/-- The values of a `range` over a string. -/
def runes (s : List UInt8) : List Char := runesAfter 0 s

def lex (line : List UInt8) : Except String (List (List UInt8)) :=
  let s := Lexer.scan runeMarks String.utf8EncodeChar (runes line)
  if s.escaped then .error "invalid syntax"
  else if s.quote ≠ none then .error "unterminated quote"
  else .ok s.flush.args

theorem decodeRune_encode (c : Char) (s : List UInt8) :
    decodeRune (String.utf8EncodeChar c ++ s) = (c, c.utf8Size) := by
  rw [decodeRune, toByteArray_append, ByteArray.utf8DecodeChar?_utf8EncodeChar_append]

theorem runesAfter_append (bs s : List UInt8) : runesAfter bs.length (bs ++ s) = runesAfter 0 s := by
  induction bs with
  | nil => rfl
  | cons b bs ih =>
    rw [cons_append, length_cons, runesAfter]
    exact ih

theorem runes_cons (c : Char) (s : List UInt8) : runes (String.utf8EncodeChar c ++ s) = c :: runes s := by
  have hdecode := decodeRune_encode c s
  have hlength := String.length_utf8EncodeChar c
  cases henc : String.utf8EncodeChar c with
  | nil => exact absurd henc String.utf8EncodeChar_ne_nil
  | cons b bs =>
    rw [henc] at hdecode hlength
    rw [runes, cons_append, runesAfter]
    rw [cons_append] at hdecode
    rw [hdecode, ← hlength, length_cons, Nat.add_sub_cancel, runesAfter_append]
    rfl

theorem runes_encode (cs : List Char) : runes (cs.flatMap String.utf8EncodeChar) = cs := by
  induction cs with
  | nil => rfl
  | cons c cs ih => rw [flatMap_cons, runes_cons, ih]

/-! ## Characters as bytes -/

theorem encode_ascii (h : c.toNat < 128) : String.utf8EncodeChar c = [UInt8.ofNat c.toNat] :=
  if_pos (Nat.le_of_lt_succ h)

/-- A byte of a character above: `n` is its upper part. -/
theorem high_byte {n k : Nat} (hk : 128 ≤ k) (h : n + k < 256) : 128 ≤ (UInt8.ofNat (n + k)).toNat := by
  rw [UInt8.toNat_ofNat', Nat.mod_eq_of_lt h]
  omega

theorem encode_high (h : 128 ≤ c.toNat) : ∀ b ∈ String.utf8EncodeChar c, 128 ≤ b.toNat := by
  have hascii : ¬ c.val.toNat ≤ 127 := Nat.not_le_of_lt h
  have hlast : 128 ≤ (UInt8.ofNat (c.val.toNat % 64 + 128)).toNat := high_byte (Nat.le_refl _) (by omega)
  have hsecond : 128 ≤ (UInt8.ofNat (c.val.toNat / 64 % 64 + 128)).toNat := high_byte (Nat.le_refl _) (by omega)
  have hthird : 128 ≤ (UInt8.ofNat (c.val.toNat / 4096 % 64 + 128)).toNat := high_byte (Nat.le_refl _) (by omega)
  have htwo : 128 ≤ (UInt8.ofNat (c.val.toNat / 64 % 32 + 192)).toNat := high_byte (by decide) (by omega)
  have hthree : 128 ≤ (UInt8.ofNat (c.val.toNat / 4096 % 16 + 224)).toNat := high_byte (by decide) (by omega)
  have hfour : 128 ≤ (UInt8.ofNat (c.val.toNat / 262144 % 8 + 240)).toNat := high_byte (by decide) (by omega)
  intro b hb
  unfold String.utf8EncodeChar at hb
  simp only [if_neg hascii] at hb
  split at hb
  · simp only [mem_cons, not_mem_nil, or_false] at hb
    rcases hb with rfl | rfl <;> assumption
  split at hb
  · simp only [mem_cons, not_mem_nil, or_false] at hb
    rcases hb with rfl | rfl | rfl <;> assumption
  · simp only [mem_cons, not_mem_nil, or_false] at hb
    rcases hb with rfl | rfl | rfl | rfl <;> assumption

theorem mark_iff {mark : Char} (hc : c.toNat < 128) (hb : b.toNat = mark.toNat) :
    UInt8.ofNat c.toNat = b ↔ c = mark := by
  rw [← UInt8.toNat_inj, UInt8.toNat_ofNat', Nat.mod_eq_of_lt (by omega), hb]
  exact Char.toNat_inj

theorem alike_ascii (hc : c.toNat < 128) : byteMarks.Alike runeMarks (UInt8.ofNat c.toNat) c := by
  constructor <;> exact mark_iff hc (by decide)

theorem rune_plain (hc : 128 ≤ c.toNat) : runeMarks.Plain c := by
  have hne {d : Char} (hd : d.toNat < 128) : c ≠ d := fun h => absurd (h ▸ hc) (Nat.not_le_of_lt hd)
  constructor <;> exact hne (by decide)

theorem byte_plain (hb : 128 ≤ b.toNat) : byteMarks.Plain b := by
  have hne {d : UInt8} (hd : d.toNat < 128) : b ≠ d := fun h => absurd (h ▸ hb) (Nat.not_le_of_lt hd)
  constructor <;> exact hne (by decide)

theorem encodes_utf8 :
    Lexer.Encodes byteMarks runeMarks (fun b => [b]) String.utf8EncodeChar String.utf8EncodeChar := by
  intro c
  rcases Nat.lt_or_ge c.toNat 128 with hc | hc
  · exact .inl ⟨_, encode_ascii hc, alike_ascii hc, (encode_ascii hc).symm⟩
  · refine .inr ⟨rune_plain hc, String.utf8EncodeChar_ne_nil, fun b hb => byte_plain (encode_high hc b hb), ?_⟩
    exact flatMap_singleton' _

/-- **The two lexers.**  On every line of valid UTF-8 both give an error, or both give the same
words. -/
theorem lexers_agree {line : List UInt8} (h : line.toByteArray.IsValidUTF8) :
    (∃ e e', parseWords line = .error e ∧ lex line = .error e') ∨
      ∃ words, parseWords line = .ok words ∧ lex line = .ok words := by
  obtain ⟨cs, hcs⟩ := h
  have hline : line = cs.flatMap String.utf8EncodeChar := by
    have hdata := congrArg (fun bytes => bytes.data.toList) hcs
    rwa [utf8Encode, data_toByteArray, data_toByteArray] at hdata
  have hsame := Lexer.scan_encodes encodes_utf8 cs
  rw [parseWords, lex, hline, runes_encode]
  generalize Lexer.scan byteMarks (fun b => [b]) (cs.flatMap String.utf8EncodeChar) = s at hsame ⊢
  generalize Lexer.scan runeMarks String.utf8EncodeChar cs = t at hsame ⊢
  rw [hsame.escaped, hsame.flush.args]
  by_cases hescaped : t.escaped = true
  · exact .inl ⟨_, _, if_pos (.inl hescaped), if_pos hescaped⟩
  by_cases hquote : t.quote = none
  · have hquote' : s.quote = none := hsame.quote.none_iff.mpr hquote
    refine .inr ⟨_, if_neg ?_, (if_neg hescaped).trans (if_neg (not_not.mpr hquote))⟩
    exact not_or.mpr ⟨hescaped, not_not.mpr hquote'⟩
  · have hquote' : s.quote ≠ none := mt hsame.quote.none_iff.mp hquote
    exact .inl ⟨_, _, if_pos (.inr hquote'), (if_neg hescaped).trans (if_pos hquote)⟩

/-- A line with an escape before a character of two bytes: `\é 'b c'`. -/
def escapedLine : List UInt8 := [0x5c, 0xc3, 0xa9, 0x20, 0x27, 0x62, 0x20, 0x63, 0x27]

theorem lexers_agree_escaped : parseWords escapedLine = .ok [[0xc3, 0xa9], [0x62, 0x20, 0x63]] ∧
    lex escapedLine = .ok [[0xc3, 0xa9], [0x62, 0x20, 0x63]] := by
  have hvalid : escapedLine.toByteArray.IsValidUTF8 := ⟨['\\', 'é', ' ', '\'', 'b', ' ', 'c', '\''], rfl⟩
  have hparse : parseWords escapedLine = .ok [[0xc3, 0xa9], [0x62, 0x20, 0x63]] := rfl
  rcases lexers_agree hvalid with ⟨e, -, he, -⟩ | ⟨words, hwords, hlex⟩
  · rw [hparse] at he
    cases he
  · rw [hparse] at hwords
    cases hwords
    exact ⟨hparse, hlex⟩

/-! ## Words in single quotes -/

/-- A word in single quotes; a quote in it is written outside of them, with an escape. -/
def quoted (word : List UInt8) : List UInt8 :=
  [0x27] ++ word.flatMap (fun b => if b = 0x27 then [0x27, 0x5c, 0x27, 0x27] else [b]) ++ [0x27]

def quotedLine (words : List (List UInt8)) : List UInt8 := [0x20].intercalate (words.map quoted)

section Quoted

variable {args : List (List UInt8)}

def readOn (s : Lexer UInt8 UInt8) (line : List UInt8) : Lexer UInt8 UInt8 :=
  line.foldl (Lexer.step byteMarks fun ch => [ch]) s

/-- Between the quotes every byte comes through, a quote by way of three states. -/
theorem readOn_between (w word : List UInt8) :
    readOn ⟨args, word, some 0x27, false⟩
        (w.flatMap fun b => if b = 0x27 then [0x27, 0x5c, 0x27, 0x27] else [b]) =
      ⟨args, word ++ w, some 0x27, false⟩ := by
  induction w generalizing word with
  | nil => rw [append_nil]; rfl
  | cons b w ih =>
    rw [flatMap_cons, readOn, foldl_append, append_cons, ← ih]
    by_cases hb : b = 0x27
    · rw [hb]
      rfl
    · have hsingle : ¬ (b = byteMarks.backslash ∧ some (0x27 : UInt8) ≠ some byteMarks.single) := fun h => h.2 rfl
      rw [if_neg hb, foldl_cons, foldl_nil, Lexer.step, if_neg Bool.false_ne_true, if_neg hsingle]
      dsimp only
      rw [if_neg hb]
      rfl

theorem readOn_quoted (w : List UInt8) :
    readOn ⟨args, [], none, false⟩ (quoted w) = ⟨args, w, none, false⟩ := by
  rw [quoted, readOn, foldl_append, foldl_append]
  exact congrArg (fun s => readOn s [0x27]) (readOn_between w [])

theorem readOn_quotedLine (words : List (List UInt8)) :
    ∃ args' word, readOn ⟨args, [], none, false⟩ (quotedLine words) = ⟨args', word, none, false⟩ ∧
      (⟨args', word, none, false⟩ : Lexer UInt8 UInt8).flush.args = args ++ words.filter (· ≠ []) := by
  induction words generalizing args with
  | nil => exact ⟨args, [], rfl, (append_nil args).symm⟩
  | cons w words ih =>
    have hflush : (⟨args, w, none, false⟩ : Lexer UInt8 UInt8).flush =
        ⟨args ++ [w].filter (· ≠ []), [], none, false⟩ := by
      cases w with
      | nil =>
        rw [filter_cons_of_neg (by simp), filter_nil, append_nil]
        rfl
      | cons b w => rfl
    cases words with
    | nil =>
      refine ⟨args, w, ?_, congrArg Lexer.args hflush⟩
      rw [quotedLine, map_singleton, intercalate_singleton, readOn_quoted]
    | cons v words =>
      obtain ⟨args', word, hread, hargs⟩ := @ih (args ++ [w].filter (· ≠ []))
      refine ⟨args', word, ?_, ?_⟩
      · rw [← hread, ← hflush, quotedLine, map_cons, map_cons, intercalate_cons_cons, readOn,
          foldl_append, foldl_append]
        exact congrArg (fun s => readOn (readOn s [0x20]) (quotedLine (v :: words))) (readOn_quoted w)
      · rw [hargs, append_assoc, ← filter_append]
        rfl

end Quoted

/-- **Quoting.**  A line of quoted words gives the words back, but for the empty ones: of those there is nothing to
flush. -/
theorem quoting_round_trip (words : List (List UInt8)) :
    parseWords (quotedLine words) = .ok (words.filter (· ≠ [])) ∧
      (parseWords (quotedLine words) = .ok words ↔ [] ∉ words) := by
  obtain ⟨args', word, hread, hargs⟩ := @readOn_quotedLine [] words
  have hparse : parseWords (quotedLine words) = .ok (words.filter (· ≠ [])) := by
    rw [parseWords, show Lexer.scan byteMarks (fun ch => [ch]) (quotedLine words) = _ from hread]
    exact congrArg Except.ok hargs
  refine ⟨hparse, ?_⟩
  rw [hparse, Except.ok.injEq, filter_eq_self]
  constructor
  · intro h hempty
    exact of_decide_eq_true (h [] hempty) rfl
  · intro h w hw
    exact decide_eq_true fun hnil => h (hnil ▸ hw)

theorem empty_word_lost : parseWords (quotedLine [[], [0x61]]) = .ok [[0x61]] := rfl

end IshGo.Shell
