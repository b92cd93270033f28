import Ryeos.Expression.TemplateScanner

/-!
# The delimiters of an accepted expression

`find_expression_end` and the expression compiler read the same text with two different
machines: the scanner keeps a stack of the closing delimiters it owes and skips quoted strings,
the lexer cuts the text into tokens and the parser matches each opening token with its closer.
This file shows that they agree on every source the compiler accepts: the source is a word of
the scanner's grammar (`Template.Balanced`), so the scanner closes an embedded expression at
exactly the brace after it.

The lexer is related to the scanner by the chunks it cuts (`Lexer.Lexes`): a delimiter token is
its one character, and any other token is a balanced word by itself (a string is a quoted body,
the rest are plain characters).  The parser is related to the delimiters by what each parsing
function reads (`Parser.Reads`): a run of tokens whose delimiters are balanced.

* `Lexer.run_lexes` — a successful run of the lexer cuts the source into the chunks of its
  tokens, with ASCII whitespace between them;
* `Parser.expression_reads` and the lemmas beside it — every parsing function reads a balanced
  run of tokens (an opener's function reads up to and with its closer);
* `compileExpression_balanced` — every source `compile_expression` accepts is balanced.
-/

namespace Ryeos.Expression

namespace Template

/-! ## Words of the scanner's grammar -/

/-- A character the scanner steps over outside a string: no quote, opener or closer. -/
def isPlain (c : Char) : Bool := !isQuote c && (closerOf c).isNone && !isCloser c

lemma Balanced.append {a b : List Char} (ha : Balanced a) (hb : Balanced b) :
    Balanced (a ++ b) := by
  induction ha with
  | nil => exact hb
  | plain hq hc hk _ ih => exact .plain hq hc hk ih
  | quoted hq hbody _ ih => simpa using Balanced.quoted hq hbody ih
  | group hc hinner _ _ ih => simpa using Balanced.group hc hinner ih

lemma Balanced.of_isPlain {w : List Char} (h : ∀ c ∈ w, isPlain c = true) : Balanced w := by
  induction w with
  | nil => exact .nil
  | cons c w ih =>
    have hc := h c List.mem_cons_self
    simp only [isPlain, Bool.and_eq_true, Bool.not_eq_true', Option.isNone_iff_eq_none] at hc
    exact .plain hc.1.1 hc.1.2 hc.2 (ih fun d hd => h d (List.mem_cons_of_mem _ hd))

lemma QuoteBody.append {q : Char} {a b : List Char} (ha : QuoteBody q a) (hb : QuoteBody q b) :
    QuoteBody q (a ++ b) := by
  induction ha with
  | nil => exact hb
  | plain hcq hc _ ih => exact .plain hcq hc ih
  | escape _ ih => exact .escape ih

lemma QuoteBody.of_forall {q : Char} {w : List Char} (h : ∀ c ∈ w, c ≠ q ∧ c ≠ '\\') :
    QuoteBody q w := by
  induction w with
  | nil => exact .nil
  | cons c w ih =>
    obtain ⟨hcq, hc⟩ := h c List.mem_cons_self
    exact .plain hcq hc (ih fun d hd => h d (List.mem_cons_of_mem _ hd))

/-- A printable ASCII character other than a quote or a delimiter is plain, and `str::trim`
keeps it. -/
lemma isPlain_of_toNat {c : Char} (hlo : 0x21 ≤ c.toNat) (hhi : c.toNat ≤ 0x7E)
    (hne : c.toNat ∉ [0x22, 0x27, 0x28, 0x29, 0x5B, 0x5D, 0x7B, 0x7D]) :
    isPlain c = true ∧ Rust.isWhitespace c = false := by
  have hneq : ∀ d : Char, d.toNat ∈ [0x22, 0x27, 0x28, 0x29, 0x5B, 0x5D, 0x7B, 0x7D] → c ≠ d :=
    fun d hd hcd => hne (hcd ▸ hd)
  have hcloser : closerOf c = none := by
    unfold closerOf
    split
    · exact absurd rfl (hneq '{' (by decide))
    · exact absurd rfl (hneq '[' (by decide))
    · exact absurd rfl (hneq '(' (by decide))
    · rfl
  refine ⟨?_, ?_⟩
  · simp only [isPlain, isQuote, isCloser, hcloser, Option.isNone_none, Bool.and_true,
      Bool.and_eq_true, Bool.not_eq_true', Bool.or_eq_false_iff, decide_eq_false_iff_not]
    exact ⟨⟨hneq '\'' (by decide), hneq '"' (by decide)⟩,
      ⟨hneq '}' (by decide), hneq ']' (by decide)⟩, hneq ')' (by decide)⟩
  · simp only [Rust.isWhitespace, Bool.or_eq_false_iff, Bool.and_eq_false_iff,
      decide_eq_false_iff_not, beq_eq_false_iff_ne, ne_eq]
    omega

end Template

/-! ## The scanner's view of a token -/

/-- The character the scanner sees for a token: a delimiter token is its delimiter, and every
other token stands for a plain character. -/
def TokenKind.delimiter : TokenKind → Char
  | .leftParen => '('
  | .rightParen => ')'
  | .leftBracket => '['
  | .rightBracket => ']'
  | .leftBrace => '{'
  | .rightBrace => '}'
  | _ => ' '

namespace Lexer

open Template

/-- `chunk` is a spelling of `t` as the scanner reads it: a delimiter token is its one
character, and any other token a balanced word; either way it is not empty, and it begins and
ends with a character `str::trim` keeps. -/
structure Spells (chunk : List Char) (t : TokenKind) : Prop where
  shape : chunk = [t.delimiter] ∨ (t.delimiter = ' ' ∧ Balanced chunk)
  ne_nil : chunk ≠ []
  head_visible : ∀ c ∈ chunk.head?, Rust.isWhitespace c = false
  last_visible : ∀ c ∈ chunk.getLast?, Rust.isWhitespace c = false

/-- A token that is not a delimiter, spelt in characters the scanner steps over. -/
lemma Spells.of_plain {chunk : List Char} {t : TokenKind} (ht : t.delimiter = ' ')
    (hne : chunk ≠ []) (h : ∀ c ∈ chunk, isPlain c = true ∧ Rust.isWhitespace c = false) :
    Spells chunk t where
  shape := .inr ⟨ht, Balanced.of_isPlain fun c hc => (h c hc).1⟩
  ne_nil := hne
  head_visible c hc := (h c (List.mem_of_mem_head? hc)).2
  last_visible c hc := (h c (List.mem_of_mem_getLast? hc)).2

/-- `Spells.of_plain` with the characters checked by a computation, for fixed spellings. -/
lemma Spells.of_all {chunk : List Char} {t : TokenKind} (ht : t.delimiter = ' ')
    (hne : chunk ≠ []) (h : chunk.all (fun c => isPlain c && !Rust.isWhitespace c) = true) :
    Spells chunk t :=
  Spells.of_plain ht hne fun c hc => by
    simpa only [Bool.and_eq_true, Bool.not_eq_true'] using List.all_eq_true.mp h c hc

/-- A delimiter token, spelt as its delimiter. -/
lemma Spells.of_delimiter {chunk : List Char} {t : TokenKind} (hchunk : chunk = [t.delimiter])
    (h : Rust.isWhitespace t.delimiter = false) : Spells chunk t where
  shape := .inl hchunk
  ne_nil := hchunk ▸ List.cons_ne_nil _ _
  head_visible c hc := by
    rw [hchunk, List.head?_cons, Option.mem_def, Option.some.injEq] at hc
    exact hc ▸ h
  last_visible c hc := by
    rw [hchunk, List.getLast?_singleton, Option.mem_def, Option.some.injEq] at hc
    exact hc ▸ h

/-- `cs` is cut into the chunks of `ts`, with ASCII whitespace around them. -/
inductive Lexes : List Char → List TokenKind → Prop
  | nil : Lexes [] []
  | space {c : Char} {cs : List Char} {ts : List TokenKind} : Rust.isAsciiWhitespace c = true →
      Lexes cs ts → Lexes (c :: cs) ts
  | token {chunk cs : List Char} {t : TokenKind} {ts : List TokenKind} : Spells chunk t →
      Lexes cs ts → Lexes (chunk ++ cs) (t :: ts)

namespace Lexes

lemma spaces {ws cs : List Char} {ts : List TokenKind}
    (hws : ∀ w ∈ ws, Rust.isAsciiWhitespace w = true) (h : Lexes cs ts) : Lexes (ws ++ cs) ts := by
  induction ws with
  | nil => exact h
  | cons w ws ih =>
    exact .space (hws w List.mem_cons_self) (ih fun v hv => hws v (List.mem_cons_of_mem _ hv))

lemma whitespace_of_nil {cs : List Char} (h : Lexes cs []) :
    ∀ c ∈ cs, Rust.isAsciiWhitespace c = true := by
  generalize hts : ([] : List TokenKind) = ts at h
  induction h with
  | nil => simp
  | space hc _ ih => exact List.forall_mem_cons.mpr ⟨hc, ih hts⟩
  | token => cases hts

/-- The chunks of a list of tokens and of a list after it make the chunks of both. -/
lemma append {a b : List Char} {ts us : List TokenKind} (ha : Lexes a ts) (hb : Lexes b us) :
    Lexes (a ++ b) (ts ++ us) := by
  induction ha with
  | nil => exact hb
  | space hc _ ih => exact .space hc ih
  | token hchunk _ ih => simpa using Lexes.token hchunk ih

/-- Cutting `cs` into the chunks of `ts ++ us` cuts it into the chunks of `ts`, then of `us`. -/
lemma split {cs : List Char} {ts us : List TokenKind} (h : Lexes cs (ts ++ us)) :
    ∃ a b, cs = a ++ b ∧ Lexes a ts ∧ Lexes b us := by
  generalize hall : ts ++ us = all at h
  induction h generalizing ts with
  | nil =>
    obtain ⟨rfl, rfl⟩ := List.append_eq_nil_iff.mp hall
    exact ⟨[], [], rfl, .nil, .nil⟩
  | space hc _ ih =>
    obtain ⟨a, b, rfl, ha, hb⟩ := ih hall
    exact ⟨_ :: a, b, rfl, .space hc ha, hb⟩
  | @token chunk cs t rest hchunk hrest ih =>
    cases ts with
    | nil =>
      subst hall
      exact ⟨[], chunk ++ cs, rfl, .nil, .token hchunk hrest⟩
    | cons t' ts =>
      rw [List.cons_append, List.cons.injEq] at hall
      obtain ⟨rfl, hall⟩ := hall
      obtain ⟨a, b, rfl, ha, hb⟩ := ih hall
      exact ⟨chunk ++ a, b, by simp, .token hchunk ha, hb⟩

/-- The chunks of a list that starts with `t`: whitespace, the chunk of `t`, and the rest. -/
lemma cons_inv {cs : List Char} {t : TokenKind} {ts : List TokenKind} (h : Lexes cs (t :: ts)) :
    ∃ ws chunk rest, cs = ws ++ chunk ++ rest ∧ (∀ w ∈ ws, Rust.isAsciiWhitespace w = true) ∧
      Spells chunk t ∧ Lexes rest ts := by
  generalize hall : t :: ts = all at h
  induction h with
  | nil => cases hall
  | space hc _ ih =>
    obtain ⟨ws, chunk, rest, rfl, hws, hchunk, hrest⟩ := ih hall
    exact ⟨_ :: ws, chunk, rest, rfl, List.forall_mem_cons.mpr ⟨hc, hws⟩, hchunk, hrest⟩
  | token hchunk hrest =>
    obtain ⟨rfl, rfl⟩ := List.cons.inj hall
    exact ⟨[], _, _, rfl, by simp, hchunk, hrest⟩

end Lexes

/-! ## The chunks the lexer cuts -/

lemma isPlain_of_isIdentifierByte {c : Char} (h : isIdentifierByte c = true) :
    isPlain c = true ∧ Rust.isWhitespace c = false := by
  have h0 : '0'.val.toNat = 48 := rfl
  have h9 : '9'.val.toNat = 57 := rfl
  have hA : 'A'.val.toNat = 65 := rfl
  have hZ : 'Z'.val.toNat = 90 := rfl
  have ha : 'a'.val.toNat = 97 := rfl
  have hz : 'z'.val.toNat = 122 := rfl
  simp only [isIdentifierByte, Char.isAlphanum, Char.isAlpha, Char.isUpper, Char.isLower,
    Char.isDigit, Bool.or_eq_true, Bool.and_eq_true, decide_eq_true_eq,
    UInt32.le_iff_toNat_le] at h
  -- a letter or a digit lies in one of three ranges of printable ASCII
  rcases h with ((h | h) | h) | rfl
  all_goals first
    | decide
    | apply isPlain_of_toNat <;> simp only [Char.toNat, List.mem_cons, List.not_mem_nil,
        or_false] <;> omega

lemma isPlain_of_isNumberChar {c : Char} (h : IsNumberChar c) :
    isPlain c = true ∧ Rust.isWhitespace c = false := by
  rcases h with hdigit | rfl | rfl | rfl | rfl | rfl
  · exact isPlain_of_isIdentifierByte (by simp [isIdentifierByte, Char.isAlphanum, hdigit])
  all_goals decide

lemma isAsciiHexdigit_facts {c : Char} (h : isAsciiHexdigit c = true) :
    isQuote c = false ∧ c ≠ '\\' := by
  have hplain : isPlain c = true := by
    simp only [isAsciiHexdigit, Bool.or_eq_true, Bool.and_eq_true, decide_eq_true_eq] at h
    rcases h with (hdigit | h) | h
    · exact (isPlain_of_isIdentifierByte (by simp [isIdentifierByte, Char.isAlphanum, hdigit])).1
    all_goals
      refine (isPlain_of_isIdentifierByte ?_).1
      simp only [isIdentifierByte, Char.isAlphanum, Char.isAlpha, Char.isUpper, Char.isLower,
        Bool.or_eq_true, Bool.and_eq_true, decide_eq_true_eq]
      simp only [Char.le_def, UInt32.le_iff_toNat_le] at h ⊢
      have : 'a'.val.toNat = 97 := rfl
      have : 'f'.val.toNat = 102 := rfl
      have : 'z'.val.toNat = 122 := rfl
      have : 'A'.val.toNat = 65 := rfl
      have : 'F'.val.toNat = 70 := rfl
      have : 'Z'.val.toNat = 90 := rfl
      omega
  simp only [isPlain, Bool.and_eq_true, Bool.not_eq_true'] at hplain
  refine ⟨hplain.1.1, ?_⟩
  rintro rfl
  cases h

/-- Four hexadecimal digits, read off the front. -/
lemma readHexEscape_eq_ok {cs rest : List Char} {value : ℕ}
    (h : readHexEscape cs = .ok (value, rest)) :
    ∃ hex, cs = hex ++ rest ∧ ∀ c ∈ hex, isAsciiHexdigit c = true := by
  unfold readHexEscape at h
  split at h
  · rename_i a b c d rest'
    split_ifs at h with hall
    cases h
    exact ⟨[a, b, c, d], rfl, fun x hx => List.all_eq_true.mp hall x hx⟩
  · cases h

/-- Hexadecimal digits are a quoted body. -/
lemma quoteBody_of_hex {q : Char} (hq : isQuote q = true) {hex : List Char}
    (h : ∀ c ∈ hex, isAsciiHexdigit c = true) : QuoteBody q hex :=
  QuoteBody.of_forall fun c hc => by
    obtain ⟨hcq, hc⟩ := isAsciiHexdigit_facts (h c hc)
    refine ⟨?_, hc⟩
    rintro rfl
    rw [hq] at hcq
    cases hcq

/-- An escape, after its backslash, reads the escaped character and then a quoted body: the
hexadecimal digits of a `\u` escape, and for a surrogate pair the second `\u` escape too. -/
lemma decodeEscape_body {q : Char} (hq : isQuote q = true) {cs rest : List Char} {d : Char}
    (h : decodeEscape q cs = .ok (d, rest)) :
    ∃ x pre, cs = x :: (pre ++ rest) ∧ QuoteBody q pre := by
  unfold decodeEscape at h
  split at h
  · cases h
  · rename_i escaped after
    split at h <;> (try split_ifs at h) <;> (try dsimp only at h) <;>
      (try (cases h <;> exact ⟨_, [], rfl, .nil⟩))
    -- `\u`: four digits, and four more after a second `\u` for a surrogate pair
    obtain ⟨⟨first, rest₁⟩, hfirst, hpair⟩ := Except.bind_eq_ok.mp h
    obtain ⟨hex, rfl, hhex⟩ := readHexEscape_eq_ok hfirst
    dsimp only at hpair
    split_ifs at hpair
    · split at hpair
      · rename_i rest₂
        obtain ⟨⟨second, rest₃⟩, hsecond, hscalar⟩ := Except.bind_eq_ok.mp hpair
        obtain ⟨hex', rfl, hhex'⟩ := readHexEscape_eq_ok hsecond
        dsimp only at hscalar
        split_ifs at hscalar
        rw [scalarChar_eq_ok hscalar]
        exact ⟨'u', hex ++ '\\' :: 'u' :: hex', by simp,
          (quoteBody_of_hex hq hhex).append (.escape (quoteBody_of_hex hq hhex'))⟩
      · cases hpair
    · rw [scalarChar_eq_ok hpair]
      exact ⟨'u', hex, rfl, quoteBody_of_hex hq hhex⟩

/-- A string literal, after its opening quote, reads a quoted body and the closing quote. -/
lemma string_body {q : Char} (hq : isQuote q = true) {cs after output : List Char}
    {kind : TokenKind} (h : string q cs output = .ok (kind, after)) :
    ∃ body, cs = body ++ q :: after ∧ QuoteBody q body := by
  induction cs, output using string.induct q with
  | case1 output => simp [string] at h
  | case2 output rest =>
    rw [string, if_pos rfl] at h
    cases h
    exact ⟨[], rfl, .nil⟩
  | case3 output rest decoded after' hdecode hshort hquote ih =>
    rw [string, if_neg hquote, if_pos rfl] at h
    split at h
    · rename_i hdecode'
      rw [hdecode] at hdecode'
      cases hdecode'
      obtain ⟨body, rfl, hbody⟩ := ih h
      obtain ⟨x, pre, hrest, hpre⟩ := decodeEscape_body hq hdecode
      exact ⟨'\\' :: x :: (pre ++ body), by simp [hrest], .escape (hpre.append hbody)⟩
    · cases h
  | case4 output rest e hdecode hquote =>
    rw [string, if_neg hquote, if_pos rfl] at h
    split at h
    · rename_i hdecode'
      rw [hdecode] at hdecode'
      cases hdecode'
    · cases h
  | case5 output c rest hquote hescape hcontrol =>
    rw [string, if_neg hquote, if_neg hescape, if_pos hcontrol] at h
    cases h
  | case6 output c rest hquote hescape hcontrol ih =>
    rw [string, if_neg hquote, if_neg hescape, if_neg hcontrol] at h
    obtain ⟨body, rfl, hbody⟩ := ih h
    exact ⟨c :: body, rfl, .plain hquote hescape hbody⟩

/-- **Every token the lexer reads is spelt by the characters it read.** -/
lemma scanToken_spells {c : Char} {rest after : List Char} {kind : TokenKind}
    (h : scanToken c rest = .ok (kind, after)) :
    ∃ chunk, c :: rest = chunk ++ after ∧ Spells chunk kind ∧ kind ≠ .eof := by
  unfold scanToken at h
  split_ifs at h with hident hdigit hquote
  · -- an identifier or reserved word
    cases h
    have hfirst : isIdentifierByte c = true := by
      simp only [Bool.or_eq_true, decide_eq_true_eq] at hident
      rcases hident with hident | rfl
      · simp [isIdentifierByte, Char.isAlphanum, hident]
      · rfl
    refine ⟨c :: rest.takeWhile isIdentifierByte, by simp, ?_, ?_⟩
    · refine Spells.of_plain ?_ (List.cons_ne_nil _ _) fun d hd => ?_
      · split_ifs <;> rfl
      · rcases List.mem_cons.mp hd with rfl | hd
        · exact isPlain_of_isIdentifierByte hfirst
        · exact isPlain_of_isIdentifierByte (List.mem_takeWhile_imp hd)
    · split_ifs <;> simp
  · -- a number: its three parts read number characters only
    obtain ⟨text, rfl, htext⟩ := number_eq_ok h
    obtain ⟨⟨integer, after₁⟩, hi, h⟩ := Except.bind_eq_ok.mp h
    obtain ⟨⟨fraction, after₂⟩, hf, h⟩ := Except.bind_eq_ok.mp h
    obtain ⟨⟨exponent, after₃⟩, he, h⟩ := Except.bind_eq_ok.mp h
    obtain ⟨-, rfl⟩ := Prod.mk.inj (Except.ok.inj h)
    obtain ⟨p₁, h₁, hc₁⟩ := validIntegerPart_chars (validIntegerPart_eq_some.mpr ⟨hdigit, _, hi⟩)
    obtain ⟨p₂, rfl, hc₂⟩ := validFractionPart_chars (validFractionPart_eq_some.mpr ⟨_, hf⟩)
    obtain ⟨p₃, rfl, hc₃⟩ := validExponentPart_chars (validExponentPart_eq_some.mpr ⟨_, he⟩)
    have hchunk : c :: text = p₁ ++ p₂ ++ p₃ := by
      have hsplit : (c :: text) ++ after₃ = (p₁ ++ p₂ ++ p₃) ++ after₃ := by
        rw [List.cons_append, htext, h₁, List.append_assoc, List.append_assoc]
      exact List.append_cancel_right hsplit
    refine ⟨c :: text, by rw [List.cons_append, htext], ?_, by simp⟩
    refine Spells.of_plain rfl (List.cons_ne_nil _ _) fun d hd => isPlain_of_isNumberChar ?_
    rw [hchunk, List.mem_append, List.mem_append] at hd
    rcases hd with (hd | hd) | hd
    · exact hc₁ d hd
    · exact hc₂ d hd
    · exact hc₃ d hd
  · -- a string: a quoted body between its quotes
    have hq : isQuote c = true := by simpa [isQuote] using hquote
    obtain ⟨body, rfl, hbody⟩ := string_body hq h
    obtain ⟨⟨value, rfl⟩, -⟩ := string_eq_ok h
    have hvisible : Rust.isWhitespace c = false := by
      simp only [isQuote, Bool.or_eq_true, decide_eq_true_eq] at hq
      rcases hq with rfl | rfl <;> decide
    refine ⟨c :: body ++ [c], by simp, ⟨.inr ⟨rfl, by simpa using Balanced.quoted hq hbody .nil⟩,
      by simp, by simpa using hvisible, fun d hd => ?_⟩, by simp⟩
    rw [List.getLast?_concat, Option.mem_def, Option.some.injEq] at hd
    exact hd ▸ hvisible
  · -- one or two characters of punctuation
    split at h <;> cases h
    all_goals first
      | exact ⟨[_], rfl, Spells.of_delimiter rfl (by decide), by decide⟩
      | exact ⟨[_], rfl, Spells.of_all rfl (by simp) (by decide), by decide⟩
      | exact ⟨[_, _], rfl, Spells.of_all rfl (by simp) (by decide), by decide⟩

/-- **A run of the lexer cuts the source into the chunks of its tokens**, and ends with the one
`Eof`, which it spells with no chunk. -/
lemma run_lexes {limits : CompilationLimits} {cs : List Char} {tokens out : List TokenKind}
    (h : run limits cs tokens = .ok out) :
    ∃ ts, out = tokens ++ ts ++ [.eof] ∧ Lexes cs ts ∧ .eof ∉ ts := by
  induction cs, tokens using run.induct limits with
  | case1 tokens =>
    rw [run] at h
    unfold push at h
    split_ifs at h
    cases h
    exact ⟨[], by simp, .nil, by simp⟩
  | case2 tokens c rest hws ih =>
    rw [run, if_pos hws] at h
    obtain ⟨ts, rfl, hlexes, heof⟩ := ih h
    exact ⟨ts, rfl, .space hws hlexes, heof⟩
  | case3 tokens c rest hws e hscan =>
    rw [run, if_neg hws] at h
    split at h
    · cases h
    · rename_i hscan'
      rw [hscan] at hscan'
      cases hscan'
  | case4 tokens c rest hws kind after hscan hshort e hpush =>
    rw [run, if_neg hws] at h
    split at h
    · cases h
    · rename_i hscan'
      rw [hscan] at hscan'
      cases hscan'
      rw [hpush] at h
      cases h
  | case5 tokens c rest hws kind after hscan hshort tokens' hpush ih =>
    rw [run, if_neg hws] at h
    split at h
    · rename_i hscan'
      rw [hscan] at hscan'
      cases hscan'
    · rename_i hscan'
      rw [hscan] at hscan'
      cases hscan'
      rw [hpush] at h
      obtain ⟨ts, rfl, hlexes, heof⟩ := ih h
      unfold push at hpush
      split_ifs at hpush
      cases hpush
      obtain ⟨chunk, hcs, hspells, hkind⟩ := scanToken_spells hscan
      refine ⟨kind :: ts, by simp, hcs ▸ .token hspells hlexes, ?_⟩
      simp only [List.mem_cons, not_or]
      exact ⟨hkind.symm, heof⟩

end Lexer

/-! ## The runs of tokens the parser reads -/

namespace Parser

open Template

/-- The parser, started at `ts`, stopped at `rest`, and the delimiters of the tokens it read
are balanced. -/
def Reads (ts rest : List TokenKind) : Prop :=
  ∃ read, ts = read ++ rest ∧ Balanced (read.map TokenKind.delimiter)

namespace Reads

lemma refl (ts : List TokenKind) : Reads ts ts := ⟨[], rfl, .nil⟩

lemma trans {ts mid rest : List TokenKind} (h₁ : Reads ts mid) (h₂ : Reads mid rest) :
    Reads ts rest := by
  obtain ⟨a, rfl, ha⟩ := h₁
  obtain ⟨b, rfl, hb⟩ := h₂
  exact ⟨a ++ b, by simp, by simpa using ha.append hb⟩

/-- A token that is not a delimiter. -/
lemma plain {t : TokenKind} (ht : t.delimiter = ' ') (ts : List TokenKind) : Reads (t :: ts) ts :=
  ⟨[t], rfl, by rw [List.map_singleton, ht]; exact .plain rfl rfl rfl .nil⟩

/-- An opener, a balanced run, and the opener's closer. -/
lemma group {o c : TokenKind} (hoc : closerOf o.delimiter = some c.delimiter)
    {ts rest : List TokenKind} (h : Reads ts (c :: rest)) : Reads (o :: ts) rest := by
  obtain ⟨inner, rfl, hinner⟩ := h
  exact ⟨o :: inner ++ [c], by simp, by simpa using Balanced.group hoc hinner .nil⟩

end Reads

/-- `expect` of a token other than `Eof` reads exactly that token. -/
lemma expect_eq_ok {k : TokenKind} {expected : String} {ts : List TokenKind} {elements : ℕ}
    {p : Parsed ts TokenKind} (hk : k ≠ .eof) (h : expect (· = k) expected ts elements = .ok p) :
    ts = k :: p.rest := by
  unfold expect at h
  split at h
  · rename_i token rest
    simp only [decide_eq_true_eq] at h
    split_ifs at h with hpred heof
    · exact absurd (hpred ▸ heof) hk
    · cases h
      rw [hpred]
  · simp only [decide_eq_true_eq] at h
    split_ifs at h with hpred
    exact absurd hpred.symm hk

lemma delimiter_of_infixOperator {t : TokenKind} {operator : ℕ × ℕ × BinaryOperator}
    (h : infixOperator t = some operator) : t.delimiter = ' ' := by
  unfold infixOperator at h
  split at h <;> first | rfl | cases h

lemma delimiter_of_unaryOperator {t : TokenKind} {operator : UnaryOperator}
    (h : unaryOperator t = some operator) : t.delimiter = ' ' := by
  unfold unaryOperator at h
  split at h <;> first | rfl | cases h

variable {limits : CompilationLimits}

/-! Each parsing function reads a balanced run.  The proofs recurse as the parser does, on the
number of tokens left and the rank of the function. -/

mutual

theorem expression_reads {minBindingPower depth elements : ℕ} {ts : List TokenKind}
    {p : Parsed ts Expr} (h : expression limits minBindingPower depth ts elements = .ok p) :
    Reads ts p.rest := by
  unfold expression at h
  obtain ⟨-, -, h⟩ := Except.bind_eq_ok.mp h
  obtain ⟨⟨left, rest, elements₁, h₁⟩, hprefix, h⟩ := Except.bind_eq_ok.mp h
  obtain ⟨⟨result, rest₂, elements₂, h₂⟩, hloop, h⟩ := Except.bind_eq_ok.mp h
  cases h
  exact (parsePrefix_reads hprefix).trans (expressionLoop_reads hloop)
termination_by 5 * ts.length + 2

theorem expressionLoop_reads {minBindingPower depth elements : ℕ} {left : Expr}
    {ts : List TokenKind} {p : Parsed ts Expr}
    (h : expressionLoop limits minBindingPower depth left ts elements = .ok p) :
    Reads ts p.rest := by
  unfold expressionLoop at h
  split at h
  · -- a member access
    rename_i rest
    split_ifs at h
    · cases h
      exact .refl _
    · obtain ⟨⟨left₁, rest₁, elements₁, h₁⟩, hpostfix, h⟩ := Except.bind_eq_ok.mp h
      obtain ⟨⟨result, rest₂, elements₂, h₂⟩, hloop, h⟩ := Except.bind_eq_ok.mp h
      cases h
      exact (parsePostfix_reads hpostfix (.inl rfl)).trans (expressionLoop_reads hloop)
  · -- an index
    rename_i rest
    split_ifs at h
    · cases h
      exact .refl _
    · obtain ⟨⟨left₁, rest₁, elements₁, h₁⟩, hpostfix, h⟩ := Except.bind_eq_ok.mp h
      obtain ⟨⟨result, rest₂, elements₂, h₂⟩, hloop, h⟩ := Except.bind_eq_ok.mp h
      cases h
      exact (parsePostfix_reads hpostfix (.inr rfl)).trans (expressionLoop_reads hloop)
  · -- a conditional: `?`, a branch, `:` and a branch
    rename_i rest
    split_ifs at h
    · cases h
      exact .refl _
    · obtain ⟨⟨thenBranch, rest₁, elements₁, h₁⟩, hthen, h⟩ := Except.bind_eq_ok.mp h
      obtain ⟨⟨_, rest₂, elements₂, h₂⟩, hcolon, h⟩ := Except.bind_eq_ok.mp h
      obtain ⟨⟨elseBranch, rest₃, elements₃, h₃⟩, helse, h⟩ := Except.bind_eq_ok.mp h
      obtain ⟨⟨result, rest₄, elements₄, h₄⟩, hloop, h⟩ := Except.bind_eq_ok.mp h
      cases h
      have hthen' : Reads rest rest₁ := expression_reads hthen
      rw [expect_eq_ok (by decide) hcolon] at hthen'
      exact (Reads.plain rfl rest).trans (hthen'.trans ((Reads.plain rfl rest₂).trans
        ((expression_reads helse).trans (expressionLoop_reads hloop))))
  · -- an infix operator, or the end of the expression
    rename_i token rest _ _ _
    split at h
    · cases h
      exact .refl _
    · rename_i leftBindingPower rightBindingPower operator hoperator
      split_ifs at h
      · cases h
        exact .refl _
      · obtain ⟨⟨right, rest₁, elements₁, h₁⟩, hright, h⟩ := Except.bind_eq_ok.mp h
        simp only at h
        split_ifs at h
        · cases h
        obtain ⟨⟨result, rest₂, elements₂, h₂⟩, hloop, h⟩ := Except.bind_eq_ok.mp h
        cases h
        exact (Reads.plain (delimiter_of_infixOperator hoperator) rest).trans
          ((expression_reads hright).trans (expressionLoop_reads hloop))
  · cases h
    exact .refl _
termination_by 5 * ts.length + 1
decreasing_by all_goals (subst_vars; simp only [List.length_cons]; omega)

theorem parsePrefix_reads {depth elements : ℕ} {ts : List TokenKind} {p : Parsed ts Expr}
    (h : parsePrefix limits depth ts elements = .ok p) : Reads ts p.rest := by
  unfold parsePrefix at h
  split at h
  any_goals (cases h; exact Reads.plain rfl _)
  · -- a number literal
    split at h
    · cases h
      exact Reads.plain rfl _
    · cases h
  · -- a variable or a call
    rename_i name rest
    obtain ⟨⟨value, rest₁, elements₁, h₁⟩, hidentifier, h⟩ := Except.bind_eq_ok.mp h
    cases h
    exact (Reads.plain rfl rest).trans (parseIdentifier_reads hidentifier)
  · -- a group
    rename_i rest
    obtain ⟨⟨inner, rest₁, elements₁, h₁⟩, hinner, h⟩ := Except.bind_eq_ok.mp h
    obtain ⟨⟨_, rest₂, elements₂, h₂⟩, hclose, h⟩ := Except.bind_eq_ok.mp h
    cases h
    have hinner' : Reads rest rest₁ := expression_reads hinner
    rw [expect_eq_ok (by decide) hclose] at hinner'
    exact Reads.group (by decide) hinner'
  · -- an array literal
    obtain ⟨⟨value, rest₁, elements₁, h₁⟩, harray, h⟩ := Except.bind_eq_ok.mp h
    cases h
    exact parseArray_reads harray
  · -- an object literal
    obtain ⟨⟨value, rest₁, elements₁, h₁⟩, hobject, h⟩ := Except.bind_eq_ok.mp h
    cases h
    exact parseObject_reads hobject
  · -- a unary operator
    rename_i token rest _ _ _ _ _ _ _ _ _
    split at h
    · rename_i operator hoperator
      obtain ⟨⟨operand, rest₁, elements₁, h₁⟩, hoperand, h⟩ := Except.bind_eq_ok.mp h
      cases h
      exact (Reads.plain (delimiter_of_unaryOperator hoperator) rest).trans
        (expression_reads hoperand)
    · cases h
  · cases h
termination_by 5 * ts.length + 1

theorem parseIdentifier_reads {name : String} {depth elements : ℕ} {ts : List TokenKind}
    {p : Parsed ts Expr} (h : parseIdentifier limits name depth ts elements = .ok p) :
    Reads ts p.rest := by
  unfold parseIdentifier at h
  split at h
  · -- a call: its arguments between parentheses
    rename_i rest
    split at h
    · rename_i function _
      obtain ⟨⟨arguments, rest₁, elements₁, h₁⟩, harguments, h⟩ := Except.bind_eq_ok.mp h
      obtain ⟨⟨_, rest₂, elements₂, h₂⟩, hclose, h⟩ := Except.bind_eq_ok.mp h
      have harguments' : Reads rest rest₁ := by
        split_ifs at harguments
        · cases harguments
          exact .refl _
        · exact callArguments_reads harguments
      rw [expect_eq_ok (by decide) hclose] at harguments'
      -- the arity and `exists` checks read nothing
      have hrest : p.rest = rest₂ := by
        simp only at h
        split_ifs at h
        · cases h
        split at h
        · split_ifs at h
          · cases h
          · cases h
            rfl
        · cases h
          rfl
      rw [hrest]
      exact Reads.group (by decide) harguments'
    · cases h
  · cases h
    exact .refl _
termination_by 5 * ts.length

theorem callArguments_reads {depth elements : ℕ} {arguments : List Expr} {ts : List TokenKind}
    {p : Parsed ts (List Expr)} (h : callArguments limits depth arguments ts elements = .ok p) :
    Reads ts p.rest := by
  unfold callArguments at h
  split_ifs at h
  · cases h
  obtain ⟨⟨argument, rest₁, elements₁, h₁⟩, hargument, h⟩ := Except.bind_eq_ok.mp h
  simp only at h
  split at h
  · -- a comma and more arguments
    rename_i rest₂
    split_ifs at h
    · cases h
    obtain ⟨⟨arguments', rest₃, elements₃, h₃⟩, hmore, h⟩ := Except.bind_eq_ok.mp h
    cases h
    have hlen : rest₂.length < ts.length := by
      simp only [List.length_cons] at h₁
      omega
    have hargument' : Reads ts (.comma :: rest₂) := expression_reads hargument
    exact hargument'.trans ((Reads.plain rfl rest₂).trans (callArguments_reads hmore))
  · cases h
    exact expression_reads hargument
termination_by 5 * ts.length + 3

theorem parsePostfix_reads {depth elements : ℕ} {target : Expr} {token : TokenKind}
    {ts : List TokenKind} {p : Parsed ts Expr}
    (h : parsePostfix limits depth target token ts elements = .ok p)
    (htoken : token = .dot ∨ token = .leftBracket) : Reads (token :: ts) p.rest := by
  unfold parsePostfix at h
  split at h
  · -- `.` and a key
    split at h
    · cases h
      exact (Reads.plain rfl _).trans (Reads.plain rfl _)
    · cases h
  · -- `[`, an index and `]`
    rename_i hdot
    obtain rfl : token = .leftBracket := htoken.resolve_left hdot
    obtain ⟨⟨index, rest₁, elements₁, h₁⟩, hindex, h⟩ := Except.bind_eq_ok.mp h
    obtain ⟨⟨_, rest₂, elements₂, h₂⟩, hclose, h⟩ := Except.bind_eq_ok.mp h
    cases h
    have hindex' : Reads ts rest₁ := expression_reads hindex
    rw [expect_eq_ok (by decide) hclose] at hindex'
    exact Reads.group (by decide) hindex'
termination_by 5 * ts.length + 3

theorem parseArray_reads {depth elements : ℕ} {ts : List TokenKind} {p : Parsed ts Expr}
    (h : parseArray limits depth ts elements = .ok p) : Reads (.leftBracket :: ts) p.rest := by
  unfold parseArray at h
  obtain ⟨⟨values, rest₁, elements₁, h₁⟩, hvalues, h⟩ := Except.bind_eq_ok.mp h
  obtain ⟨⟨_, rest₂, elements₂, h₂⟩, hclose, h⟩ := Except.bind_eq_ok.mp h
  cases h
  have hvalues' : Reads ts rest₁ := by
    split_ifs at hvalues
    · cases hvalues
      exact .refl _
    · exact arrayElements_reads hvalues
  rw [expect_eq_ok (by decide) hclose] at hvalues'
  exact Reads.group (by decide) hvalues'
termination_by 5 * ts.length + 4

theorem arrayElements_reads {depth elements : ℕ} {values : List Expr} {ts : List TokenKind}
    {p : Parsed ts (List Expr)} (h : arrayElements limits depth values ts elements = .ok p) :
    Reads ts p.rest := by
  unfold arrayElements at h
  obtain ⟨elements₀, -, h⟩ := Except.bind_eq_ok.mp h
  obtain ⟨⟨value, rest₁, elements₁, h₁⟩, hvalue, h⟩ := Except.bind_eq_ok.mp h
  simp only at h
  split at h
  · -- a comma and more elements
    rename_i rest₂
    split_ifs at h
    · cases h
    obtain ⟨⟨values', rest₃, elements₃, h₃⟩, hmore, h⟩ := Except.bind_eq_ok.mp h
    cases h
    have hlen : rest₂.length < ts.length := by
      simp only [List.length_cons] at h₁
      omega
    have hvalue' : Reads ts (.comma :: rest₂) := expression_reads hvalue
    exact hvalue'.trans ((Reads.plain rfl rest₂).trans (arrayElements_reads hmore))
  · cases h
    exact expression_reads hvalue
termination_by 5 * ts.length + 3

theorem parseObject_reads {depth elements : ℕ} {ts : List TokenKind} {p : Parsed ts Expr}
    (h : parseObject limits depth ts elements = .ok p) : Reads (.leftBrace :: ts) p.rest := by
  unfold parseObject at h
  obtain ⟨⟨entries, rest₁, elements₁, h₁⟩, hentries, h⟩ := Except.bind_eq_ok.mp h
  obtain ⟨⟨_, rest₂, elements₂, h₂⟩, hclose, h⟩ := Except.bind_eq_ok.mp h
  cases h
  have hentries' : Reads ts rest₁ := by
    split_ifs at hentries
    · cases hentries
      exact .refl _
    · exact objectEntries_reads hentries
  rw [expect_eq_ok (by decide) hclose] at hentries'
  exact Reads.group (by decide) hentries'
termination_by 5 * ts.length + 4

theorem objectEntries_reads {depth elements : ℕ} {entries : List (String × Expr)}
    {ts : List TokenKind} {p : Parsed ts (List (String × Expr))}
    (h : objectEntries limits depth entries ts elements = .ok p) : Reads ts p.rest := by
  unfold objectEntries at h
  obtain ⟨elements₀, -, h⟩ := Except.bind_eq_ok.mp h
  split at h
  · -- a key, `:`, a value, and maybe a comma and more entries
    rename_i keyToken rest _
    simp only at h
    split at h
    -- a key that is neither an identifier nor a string
    rotate_right
    · cases h
    -- both kinds of key go on alike
    all_goals
      simp only [pure_bind] at h
      split_ifs at h
      · cases h
      obtain ⟨⟨_, rest₁, elements₁, h₁⟩, hcolon, h⟩ := Except.bind_eq_ok.mp h
      obtain ⟨⟨value, rest₂, elements₂, h₂⟩, hvalue, h⟩ := Except.bind_eq_ok.mp h
      have hcolon' : Reads rest rest₁ := by
        rw [expect_eq_ok (by decide) hcolon]
        exact Reads.plain rfl _
      refine (Reads.plain rfl rest).trans (hcolon'.trans ?_)
      simp only at h
      split at h
      · rename_i rest₃
        split_ifs at h
        · cases h
        obtain ⟨⟨entries', rest₄, elements₄, h₄⟩, hmore, h⟩ := Except.bind_eq_ok.mp h
        cases h
        have hvalue' : Reads rest₁ (.comma :: rest₃) := expression_reads hvalue
        exact hvalue'.trans ((Reads.plain rfl rest₃).trans (objectEntries_reads hmore))
      · cases h
        exact expression_reads hvalue
  · cases h
termination_by 5 * ts.length + 3
decreasing_by all_goals (subst_vars; simp only [List.length_cons] at h₂ ⊢; omega)

end

end Parser

/-- `parse`: the expression reads a balanced run, and the token after it is `Eof`. -/
lemma parse_reads {limits : CompilationLimits} {tokens : List TokenKind} {root : Expr}
    (h : parse limits tokens = .ok root) :
    ∃ rest, Parser.Reads tokens rest ∧ Parser.current rest = .eof := by
  unfold parse at h
  obtain ⟨⟨expression, rest, elements, hle⟩, hexpression, h⟩ := Except.bind_eq_ok.mp h
  obtain ⟨-, -, h⟩ := Except.bind_eq_ok.mp h
  refine ⟨rest, Parser.expression_reads hexpression, ?_⟩
  split at h
  · assumption
  · cases h

/-! ## From tokens back to characters -/

namespace Template

/-- A balanced word stays balanced without a plain character at its end: a word that ends with
a quote or a closer does not end with a plain character. -/
lemma Balanced.dropLast_plain {w : List Char} {c : Char} (h : Balanced (w ++ [c]))
    (hc : isPlain c = true) : Balanced w := by
  simp only [isPlain, Bool.and_eq_true, Bool.not_eq_true', Option.isNone_iff_eq_none] at hc
  generalize hwc : w ++ [c] = v at h
  induction h generalizing w with
  | nil => simp at hwc
  | plain hq hc' hk _ ih =>
    cases w with
    | nil =>
      obtain ⟨-, rfl⟩ := List.cons.inj hwc
      exact .nil
    | cons d w =>
      obtain ⟨rfl, hv⟩ := List.cons.inj hwc
      exact .plain hq hc' hk (ih hv)
  | @quoted q body v hq hbody _ ih =>
    rcases List.eq_nil_or_concat v with rfl | ⟨v, d, rfl⟩
    · -- the word would end with its closing quote
      obtain ⟨-, hcq⟩ := List.append_inj' hwc rfl
      rw [List.singleton_inj.mp hcq, hq] at hc
      cases hc.1.1
    · rw [List.concat_eq_append] at hwc ih
      have hwc' : w ++ [c] = (q :: body ++ q :: v) ++ [d] := by
        rw [hwc]
        simp only [List.append_assoc, List.cons_append]
      obtain ⟨rfl, hcd⟩ := List.append_inj' hwc' rfl
      obtain rfl := List.singleton_inj.mp hcd
      exact .quoted hq hbody (ih rfl)
  | @group o k inner v hok hinner _ _ ih =>
    rcases List.eq_nil_or_concat v with rfl | ⟨v, d, rfl⟩
    · -- the word would end with the group's closer
      obtain ⟨-, hck⟩ := List.append_inj' hwc rfl
      rw [List.singleton_inj.mp hck, isCloser_of_closerOf hok] at hc
      cases hc.2
    · rw [List.concat_eq_append] at hwc ih
      have hwc' : w ++ [c] = (o :: inner ++ k :: v) ++ [d] := by
        rw [hwc]
        simp only [List.append_assoc, List.cons_append]
      obtain ⟨rfl, hcd⟩ := List.append_inj' hwc' rfl
      obtain rfl := List.singleton_inj.mp hcd
      exact .group hok hinner (ih rfl)

lemma isPlain_of_isAsciiWhitespace {c : Char} (h : Rust.isAsciiWhitespace c = true) :
    isPlain c = true := by
  simp only [Rust.isAsciiWhitespace, Bool.or_eq_true, decide_eq_true_eq] at h
  rcases h with (((rfl | rfl) | rfl) | rfl) | rfl <;> decide

lemma Balanced.of_asciiWhitespace {ws : List Char}
    (h : ∀ c ∈ ws, Rust.isAsciiWhitespace c = true) : Balanced ws :=
  Balanced.of_isPlain fun c hc => isPlain_of_isAsciiWhitespace (h c hc)

end Template

open Template

lemma isQuote_delimiter (t : TokenKind) : isQuote t.delimiter = false := by
  cases t <;> rfl

namespace Lexer

/-- A token whose delimiter is plain is spelt by a balanced word. -/
lemma Spells.balanced {chunk : List Char} {t : TokenKind} (h : Spells chunk t)
    (ht : isPlain t.delimiter = true) : Balanced chunk := by
  rcases h.shape with hchunk | ⟨-, hchunk⟩
  · rw [hchunk]
    exact Balanced.of_isPlain (by simpa using ht)
  · exact hchunk

/-- A delimiter token is spelt by its delimiter alone. -/
lemma Spells.eq_of_ne_space {chunk : List Char} {t : TokenKind} (h : Spells chunk t)
    (ht : t.delimiter ≠ ' ') : chunk = [t.delimiter] :=
  h.shape.resolve_right fun hs => ht hs.1

/-- **The chunks of tokens with balanced delimiters make a balanced text.**  The induction is on
the balanced word of delimiters; a group's opener and closer are delimiter tokens, spelt by
their one character each, and what the lexer put between them is balanced by induction. -/
lemma balanced_of_lexes {cs : List Char} {ts : List TokenKind} (h : Lexes cs ts)
    (hb : Balanced (ts.map TokenKind.delimiter)) : Balanced cs := by
  generalize hw : ts.map TokenKind.delimiter = w at hb
  induction hb generalizing ts cs with
  | nil =>
    obtain rfl := List.map_eq_nil_iff.mp hw
    exact Balanced.of_asciiWhitespace h.whitespace_of_nil
  | plain hq hc hk _ ih =>
    obtain ⟨t, ts, rfl, hd, hw⟩ := List.map_eq_cons_iff.mp hw
    obtain ⟨ws, chunk, rest, rfl, hws, hchunk, hrest⟩ := h.cons_inv
    have hplain : isPlain t.delimiter = true := by simp [isPlain, hd, hq, hc, hk]
    exact ((Balanced.of_asciiWhitespace hws).append (hchunk.balanced hplain)).append
      (ih hrest hw)
  | quoted hq =>
    -- no token's delimiter is a quote
    rw [List.cons_append] at hw
    obtain ⟨t, -, -, hd, -⟩ := List.map_eq_cons_iff.mp hw
    rw [← hd, isQuote_delimiter] at hq
    cases hq
  | group hok _ _ ihinner ih =>
    rw [List.cons_append] at hw
    obtain ⟨t, ts, rfl, hd, hw⟩ := List.map_eq_cons_iff.mp hw
    obtain ⟨ts₁, ts₂, rfl, hinner, hw⟩ := List.map_eq_append_iff.mp hw
    obtain ⟨u, ts₃, rfl, hu, hw⟩ := List.map_eq_cons_iff.mp hw
    obtain ⟨ws, chunk, rest, rfl, hws, hchunk, hrest⟩ := h.cons_inv
    obtain ⟨a, b, rfl, ha, hb⟩ := hrest.split
    obtain ⟨ws', chunk', rest', rfl, hws', hchunk', hrest'⟩ := hb.cons_inv
    -- the opener and the closer are not spaces, so each is spelt by its delimiter
    have ho : t.delimiter ≠ ' ' := by
      intro hspace
      rw [← hd, hspace] at hok
      cases hok
    have hk : u.delimiter ≠ ' ' := by
      intro hspace
      have hcloser := isCloser_of_closerOf hok
      rw [← hu, hspace] at hcloser
      cases hcloser
    rw [hchunk.eq_of_ne_space ho, hchunk'.eq_of_ne_space hk, hd, hu]
    have hgroup := Balanced.group hok ((ihinner ha hinner).append
      (Balanced.of_asciiWhitespace hws')) (ih hrest' hw)
    simpa using (Balanced.of_asciiWhitespace hws).append hgroup

end Lexer

/-- The tokens the parser reads before the final `Eof` are all of them. -/
lemma read_eq_of_not_mem {ts read rest : List TokenKind} {t : TokenKind}
    (h : ts ++ [t] = read ++ t :: rest) (ht : t ∉ ts) : read = ts := by
  rcases List.eq_nil_or_concat rest with rfl | ⟨rest, t', rfl⟩
  · exact (List.append_inj' h.symm rfl).1
  · have h' : ts ++ [t] = (read ++ t :: rest) ++ [t'] := by
      rw [h, List.concat_eq_append]
      simp only [List.append_assoc, List.cons_append]
    obtain ⟨hts, -⟩ := List.append_inj' h' rfl
    exact absurd (by rw [hts]; simp) ht

/-- **Every source `compile_expression` accepts is balanced**: its quotes are closed and its
brackets matched, as `find_expression_end` reads them.  The lexer cuts it into chunks of
tokens, the parser reads all of them but the final `Eof` as a balanced run, and the chunks of a
balanced run make a balanced text. -/
theorem compileExpression_balanced {limits : CompilationLimits} {source : String}
    {expression : CompiledExpression} (h : compileExpression limits source = .ok expression) :
    Balanced source.toList := by
  unfold compileExpression at h
  obtain ⟨tokens, hlex, h⟩ := Except.bind_eq_ok.mp h
  obtain ⟨root, hparse, -⟩ := Except.bind_eq_ok.mp h
  unfold lex at hlex
  split_ifs at hlex
  obtain ⟨ts, rfl, hlexes, heof⟩ := Lexer.run_lexes hlex
  obtain ⟨rest, ⟨read, hread, hbalanced⟩, hcurrent⟩ := parse_reads hparse
  rw [List.nil_append] at hread
  refine Lexer.balanced_of_lexes hlexes ?_
  cases rest with
  | nil =>
    -- the parser read the `Eof` too, and it stands for a plain character
    rw [List.append_nil] at hread
    rw [← hread, List.map_append] at hbalanced
    exact hbalanced.dropLast_plain (by decide)
  | cons r rest =>
    obtain rfl : r = .eof := hcurrent
    rwa [read_eq_of_not_mem hread heof] at hbalanced

end Ryeos.Expression
