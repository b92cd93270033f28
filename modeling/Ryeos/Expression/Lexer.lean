import Ryeos.Core.Result
import Ryeos.Expression.Numeric

/-!
# The expression lexer: `expression/lexer.rs`

`lex` turns the source of an expression into tokens, ending with `Eof`.  The source is a
`str`; the lexer reads it byte by byte, but every byte it compares with is ASCII, and the bytes
of a character above ASCII are never ASCII, so the model reads characters and counts bytes with
`String.utf8ByteSize` where the source compares lengths.

Errors keep their phase, message and correction; spans are left out of the model.

* `validUnsignedNumberToken_iff` — `valid_unsigned_number_token` accepts exactly the texts that
  `Lexer::number` reads whole;
* `lex_number_iff` — hence the texts the lexer turns into one number token.
-/

namespace Ryeos.Expression

/-- `ErrorPhase`. -/
inductive ErrorPhase where
  | scan
  | lex
  | parse
  | evaluate
  | limit
  deriving DecidableEq, Repr

/-- `ExpressionError`: its phase, message and correction. -/
structure ExpressionError where
  phase : ErrorPhase
  message : String
  correction : Option String := none
  deriving DecidableEq, Repr

/-- `CompilationLimits`. -/
structure CompilationLimits where
  maxSourceBytes : ℕ
  maxTemplateBytes : ℕ
  maxExpressionsPerTemplate : ℕ
  maxTokens : ℕ
  maxAstDepth : ℕ
  maxLiteralElements : ℕ
  maxFunctionArguments : ℕ
  deriving DecidableEq, Repr

/-- `CompilationLimits::default`. -/
def CompilationLimits.default : CompilationLimits where
  maxSourceBytes := 64 * 1024
  maxTemplateBytes := 256 * 1024
  maxExpressionsPerTemplate := 256
  maxTokens := 8 * 1024
  maxAstDepth := 128
  maxLiteralElements := 4 * 1024
  maxFunctionArguments := 64

/-- `TokenKind`. -/
inductive TokenKind where
  | null
  | true
  | false
  | «in»
  | identifier (name : String)
  | number (text : String)
  | string (value : String)
  | leftParen
  | rightParen
  | leftBracket
  | rightBracket
  | leftBrace
  | rightBrace
  | comma
  | colon
  | dot
  | question
  | coalesce
  | or
  | and
  | equal
  | notEqual
  | less
  | lessEqual
  | greater
  | greaterEqual
  | plus
  | minus
  | star
  | slash
  | percent
  | bang
  | eof
  deriving DecidableEq, Repr

/-- `TokenKind::description`. -/
def TokenKind.description : TokenKind → String
  | .null => "null"
  | .true => "true"
  | .false => "false"
  | .in => "in"
  | .identifier _ => "identifier"
  | .number _ => "number"
  | .string _ => "string"
  | .leftParen => "`(`"
  | .rightParen => "`)`"
  | .leftBracket => "`[`"
  | .rightBracket => "`]`"
  | .leftBrace => "`\x7b`"
  | .rightBrace => "`\x7d`"
  | .comma => "`,`"
  | .colon => "`:`"
  | .dot => "`.`"
  | .question => "`?`"
  | .coalesce => "`??`"
  | .or => "`||`"
  | .and => "`&&`"
  | .equal => "`==`"
  | .notEqual => "`!=`"
  | .less => "`<`"
  | .lessEqual => "`<=`"
  | .greater => "`>`"
  | .greaterEqual => "`>=`"
  | .plus => "`+`"
  | .minus => "`-`"
  | .star => "`*`"
  | .slash => "`/`"
  | .percent => "`%`"
  | .bang => "`!`"
  | .eof => "end of expression"

namespace Lexer

/-- An error of the lexing phase. -/
def lexError (message : String) : ExpressionError := ⟨.lex, message, none⟩

/-! ## Identifiers and numbers -/

/-- The bytes that continue an identifier. -/
def isIdentifierByte (c : Char) : Bool := c.isAlphanum || c = '_'

/-- `Lexer::identifier`, from its first character: the longest identifier, with the four
reserved words as their own tokens. -/
def identifier (first : Char) (rest : List Char) : TokenKind × List Char :=
  let word := String.ofList (first :: rest.takeWhile isIdentifierByte)
  let kind : TokenKind :=
    if word = "null" then .null
    else if word = "true" then .true
    else if word = "false" then .false
    else if word = "in" then .in
    else .identifier word
  (kind, rest.dropWhile isIdentifierByte)

/-- The integer part of `Lexer::number`: a lone `0`, which no digit may follow, or a run of
digits. -/
def integerPart (first : Char) (rest : List Char) :
    Except ExpressionError (List Char × List Char) :=
  if first = '0' then
    match rest with
    | c :: _ =>
      if c.isDigit then .error (lexError "numeric literals cannot contain leading zeroes")
      else .ok ([first], rest)
    | [] => .ok ([first], [])
  else .ok (first :: rest.takeWhile Char.isDigit, rest.dropWhile Char.isDigit)

/-- The fraction of `Lexer::number`: a point and at least one digit, or nothing. -/
def fractionPart (after : List Char) : Except ExpressionError (List Char × List Char) :=
  match after with
  | '.' :: more =>
    if (more.takeWhile Char.isDigit).isEmpty then
      .error (lexError "a decimal point must be followed by a digit")
    else .ok ('.' :: more.takeWhile Char.isDigit, more.dropWhile Char.isDigit)
  | _ => .ok ([], after)

/-- The optional sign of an exponent, and what follows it. -/
def exponentSign : List Char → List Char × List Char
  | s :: more => if s = '+' || s = '-' then ([s], more) else ([], s :: more)
  | [] => ([], [])

/-- The exponent of `Lexer::number`: `e` or `E`, an optional sign and at least one digit, or
nothing. -/
def exponentPart (after : List Char) : Except ExpressionError (List Char × List Char) :=
  match after with
  | e :: more =>
    if e = 'e' || e = 'E' then
      let (sign, digits) := exponentSign more
      if (digits.takeWhile Char.isDigit).isEmpty then
        .error (lexError "an exponent must contain at least one digit")
      else .ok (e :: sign ++ digits.takeWhile Char.isDigit, digits.dropWhile Char.isDigit)
    else .ok ([], after)
  | [] => .ok ([], [])

/-- `Lexer::number`, from its first digit: the integer part, an optional fraction and an
optional exponent.  The token's text is what it read. -/
def number (first : Char) (rest : List Char) : Except ExpressionError (TokenKind × List Char) := do
  let (integer, after) ← integerPart first rest
  let (fraction, after) ← fractionPart after
  let (exponent, after) ← exponentPart after
  pure (.number (String.ofList (integer ++ fraction ++ exponent)), after)

/-! ## String literals -/

/-- `u8::is_ascii_hexdigit`. -/
def isAsciiHexdigit (c : Char) : Bool :=
  c.isDigit || ('a' ≤ c && c ≤ 'f') || ('A' ≤ c && c ≤ 'F')

/-- The value of one hexadecimal digit. -/
def hexValue (c : Char) : ℕ :=
  if c.isDigit then c.toNat - '0'.toNat
  else if 'a' ≤ c && c ≤ 'f' then c.toNat - 'a'.toNat + 10
  else c.toNat - 'A'.toNat + 10

/-- `Lexer::read_hex_escape`: four hexadecimal digits, as a `u16`. -/
def readHexEscape (cs : List Char) : Except ExpressionError (ℕ × List Char) :=
  match cs with
  | a :: b :: c :: d :: rest =>
    if [a, b, c, d].all isAsciiHexdigit then
      .ok ([a, b, c, d].foldl (fun acc h => acc * 16 + hexValue h) 0, rest)
    else .error (lexError "Unicode escape must contain four hexadecimal digits")
  | _ => .error (lexError "Unicode escape must contain four hexadecimal digits")

/-- `char::from_u32`, then the push. -/
def scalarChar (scalar : ℕ) (rest : List Char) : Except ExpressionError (Char × List Char) :=
  if Nat.isValidChar scalar then .ok (Char.ofNat scalar, rest)
  else .error (lexError "invalid Unicode scalar value")

/-- The character the source's message shows for an unknown escape: the escaped byte read as
a Latin-1 character, which for a character above ASCII is its first UTF-8 byte. -/
def escapedByte (c : Char) : Char :=
  match String.utf8EncodeChar c with
  | b :: _ => Char.ofNat b.toNat
  | [] => c

/-- `Lexer::decode_escape`, after the backslash: the character an escape stands for. -/
def decodeEscape (quote : Char) (cs : List Char) : Except ExpressionError (Char × List Char) :=
  match cs with
  | [] => .error (lexError "unterminated string escape")
  | escaped :: rest =>
    let unknown : Except ExpressionError (Char × List Char) :=
      let shown := escapedByte escaped
      .error (lexError s!"unknown string escape `\\{shown}`")
    match escaped with
    | '"' => .ok ('"', rest)
    | '\'' => if quote = '\'' then .ok ('\'', rest) else unknown
    | '\\' => .ok ('\\', rest)
    | '/' => .ok ('/', rest)
    | 'b' => .ok ('\x08', rest)
    | 'f' => .ok ('\x0C', rest)
    | 'n' => .ok ('\n', rest)
    | 'r' => .ok ('\r', rest)
    | 't' => .ok ('\t', rest)
    | 'u' => do
      let (first, rest) ← readHexEscape rest
      if 0xD800 ≤ first ∧ first ≤ 0xDBFF then
        -- a high surrogate must be followed by an escaped low one
        match rest with
        | '\\' :: 'u' :: rest => do
          let (second, rest) ← readHexEscape rest
          if 0xDC00 ≤ second ∧ second ≤ 0xDFFF then
            scalarChar (0x10000 + (first - 0xD800) * 2 ^ 10 + (second - 0xDC00)) rest
          else .error (lexError "invalid Unicode surrogate pair")
        | _ => .error (lexError "high Unicode surrogate must be followed by a low surrogate")
      else if 0xDC00 ≤ first ∧ first ≤ 0xDFFF then
        .error (lexError "unpaired low Unicode surrogate")
      else scalarChar first rest
    | _ => unknown

lemma readHexEscape_length {cs rest : List Char} {value : ℕ}
    (h : readHexEscape cs = .ok (value, rest)) : rest.length < cs.length := by
  unfold readHexEscape at h
  split at h
  · split_ifs at h
    cases h
    simp only [List.length_cons]
    omega
  · cases h

lemma scalarChar_eq_ok {scalar : ℕ} {rest after : List Char} {c : Char}
    (h : scalarChar scalar rest = .ok (c, after)) : after = rest := by
  unfold scalarChar at h
  split_ifs at h
  cases h
  rfl

/-- An escape reads at least the escaped character. -/
lemma decodeEscape_length {quote c : Char} {cs rest : List Char}
    (h : decodeEscape quote cs = .ok (c, rest)) : rest.length < cs.length := by
  unfold decodeEscape at h
  split at h
  · cases h
  · rename_i escaped after
    split at h <;> (try split_ifs at h) <;> (try cases h) <;> (try (simp; done))
    -- the `\u` escapes read four digits, or eight for a surrogate pair
    obtain ⟨⟨first, rest₁⟩, hfirst, h⟩ := Except.bind_eq_ok.mp h
    have h₁ := readHexEscape_length hfirst
    dsimp only at h
    split_ifs at h
    · split at h
      · obtain ⟨⟨second, rest₂⟩, hsecond, h⟩ := Except.bind_eq_ok.mp h
        have h₂ := readHexEscape_length hsecond
        dsimp only at h
        split_ifs at h
        rw [scalarChar_eq_ok h]
        simp only [List.length_cons] at h₁ ⊢
        omega
      · cases h
    · rw [scalarChar_eq_ok h]
      simp only [List.length_cons]
      omega

/-- `Lexer::string`, after the opening quote: the characters up to the closing `quote`, with
escapes decoded and raw control characters refused. -/
def string (quote : Char) (cs : List Char) (output : List Char) :
    Except ExpressionError (TokenKind × List Char) :=
  match cs with
  | [] => .error (lexError "unterminated string literal")
  | c :: rest =>
    if c = quote then .ok (.string (String.ofList output), rest)
    else if c = '\\' then
      match h : decodeEscape quote rest with
      | .ok (decoded, after) =>
        have := decodeEscape_length h
        string quote after (output ++ [decoded])
      | .error e => .error e
    else if c.toNat < 0x20 then .error (lexError "unescaped control character in string literal")
    else string quote rest (output ++ [c])
termination_by cs.length
decreasing_by all_goals simp only [List.length_cons]; omega

/-! ## Tokens -/

/-- The arms of the match in `Lexer::run`: one token from its first character on. -/
def scanToken (c : Char) (rest : List Char) : Except ExpressionError (TokenKind × List Char) :=
  if c.isAlpha || c = '_' then .ok (identifier c rest)
  else if c.isDigit then number c rest
  else if c = '\'' || c = '"' then string c rest []
  else
    match c, rest with
    | '(', _ => .ok (.leftParen, rest)
    | ')', _ => .ok (.rightParen, rest)
    | '[', _ => .ok (.leftBracket, rest)
    | ']', _ => .ok (.rightBracket, rest)
    | '{', _ => .ok (.leftBrace, rest)
    | '}', _ => .ok (.rightBrace, rest)
    | ',', _ => .ok (.comma, rest)
    | ':', _ => .ok (.colon, rest)
    | '.', _ => .ok (.dot, rest)
    | '+', _ => .ok (.plus, rest)
    | '-', _ => .ok (.minus, rest)
    | '*', _ => .ok (.star, rest)
    | '/', _ => .ok (.slash, rest)
    | '%', _ => .ok (.percent, rest)
    | '?', '?' :: more => .ok (.coalesce, more)
    | '?', _ => .ok (.question, rest)
    | '|', '|' :: more => .ok (.or, more)
    | '|', _ =>
      .error { phase := .lex, message := "pipe-filter syntax was removed in rye-expr/1",
               correction := some ("call the filter as a function, for example " ++
                 "`length(value)`; use `??` for fallback") }
    | '&', '&' :: more => .ok (.and, more)
    | '=', '=' :: more => .ok (.equal, more)
    | '!', '=' :: more => .ok (.notEqual, more)
    | '!', _ => .ok (.bang, rest)
    | '<', '=' :: more => .ok (.lessEqual, more)
    | '<', _ => .ok (.less, rest)
    | '>', '=' :: more => .ok (.greaterEqual, more)
    | '>', _ => .ok (.greater, rest)
    | other, _ => .error (lexError s!"unexpected character `{other}`")

lemma identifier_length (first : Char) (rest : List Char) :
    (identifier first rest).2.length ≤ rest.length :=
  (List.dropWhile_suffix _).length_le

lemma integerPart_eq_ok {first : Char} {rest part after : List Char}
    (h : integerPart first rest = .ok (part, after)) :
    ∃ digits, part = first :: digits ∧ digits ++ after = rest := by
  unfold integerPart at h
  split_ifs at h
  · split at h
    · split_ifs at h
      cases h
      exact ⟨[], rfl, rfl⟩
    · cases h
      exact ⟨[], rfl, rfl⟩
  · cases h
    exact ⟨_, rfl, List.takeWhile_append_dropWhile⟩

lemma fractionPart_eq_ok {after part rest : List Char}
    (h : fractionPart after = .ok (part, rest)) : part ++ rest = after := by
  unfold fractionPart at h
  split at h
  · split_ifs at h
    cases h
    simp [List.takeWhile_append_dropWhile]
  · cases h
    rfl

lemma exponentSign_append (more : List Char) :
    (exponentSign more).1 ++ (exponentSign more).2 = more := by
  unfold exponentSign
  split
  · split_ifs <;> rfl
  · rfl

lemma exponentPart_eq_ok {after part rest : List Char}
    (h : exponentPart after = .ok (part, rest)) : part ++ rest = after := by
  unfold exponentPart at h
  split at h
  · rename_i e more
    by_cases he : (e = 'e' || e = 'E') = true
    · rw [if_pos he] at h
      have hsign := exponentSign_append more
      generalize exponentSign more = sd at h hsign
      obtain ⟨sign, digits⟩ := sd
      dsimp only at h hsign
      split_ifs at h
      cases h
      simp only [List.cons_append, List.append_assoc, List.takeWhile_append_dropWhile, hsign]
    · rw [if_neg he] at h
      cases h
      rfl
  · cases h
    rfl

/-- `Lexer::number` reads a prefix of its input: the token's text and what follows make up
the input. -/
lemma number_eq_ok {first : Char} {rest after : List Char} {kind : TokenKind}
    (h : number first rest = .ok (kind, after)) :
    ∃ text, kind = .number (String.ofList (first :: text)) ∧ text ++ after = rest := by
  obtain ⟨⟨integer, after₁⟩, hi, h⟩ := Except.bind_eq_ok.mp h
  obtain ⟨⟨fraction, after₂⟩, hf, h⟩ := Except.bind_eq_ok.mp h
  obtain ⟨⟨exponent, after₃⟩, he, h⟩ := Except.bind_eq_ok.mp h
  cases h
  obtain ⟨digits, rfl, hdigits⟩ := integerPart_eq_ok hi
  refine ⟨digits ++ fraction ++ exponent, by simp, ?_⟩
  rw [← hdigits, ← fractionPart_eq_ok hf, ← exponentPart_eq_ok he]
  simp

/-- A string literal is a string token, and it reads at least its closing quote. -/
lemma string_eq_ok {quote : Char} {cs after output : List Char} {kind : TokenKind}
    (h : string quote cs output = .ok (kind, after)) :
    (∃ value, kind = .string value) ∧ after.length < cs.length := by
  induction cs, output using string.induct quote with
  | case1 output => simp [string] at h
  | case2 output rest =>
    rw [string, if_pos rfl] at h
    cases h
    exact ⟨⟨_, rfl⟩, by simp⟩
  | case3 output rest decoded after' hdecode hshort hquote ih =>
    rw [string, if_neg hquote, if_pos rfl] at h
    split at h
    · rename_i hdecode'
      rw [hdecode] at hdecode'
      cases hdecode'
      obtain ⟨hkind, hlength⟩ := ih h
      refine ⟨hkind, ?_⟩
      simp only [List.length_cons]
      omega
    · cases h
  | case4 output rest e hdecode hquote =>
    rw [string, if_neg hquote, if_pos rfl] at h
    split at h
    · rename_i hdecode'
      rw [hdecode] at hdecode'
      cases hdecode'
    · cases h
  | case5 output c rest hquote hescape hcontrol =>
    rw [string, if_neg hquote, if_neg hescape, if_pos hcontrol] at h
    cases h
  | case6 output c rest hquote hescape hcontrol ih =>
    rw [string, if_neg hquote, if_neg hescape, if_neg hcontrol] at h
    obtain ⟨hkind, hlength⟩ := ih h
    refine ⟨hkind, ?_⟩
    simp only [List.length_cons]
    omega

/-- A token reads at least its first character. -/
lemma scanToken_length {c : Char} {rest after : List Char} {kind : TokenKind}
    (h : scanToken c rest = .ok (kind, after)) : after.length ≤ rest.length := by
  unfold scanToken at h
  split_ifs at h
  · cases h
    exact identifier_length c rest
  · obtain ⟨text, -, htext⟩ := number_eq_ok h
    rw [← htext, List.length_append]
    omega
  · exact (string_eq_ok h).2.le
  · -- one or two characters of punctuation
    split at h <;> cases h <;> simp

/-- `Lexer::push`: a token past `max_tokens` is an error. -/
def push (limits : CompilationLimits) (tokens : List TokenKind) (kind : TokenKind) :
    Except ExpressionError (List TokenKind) :=
  if limits.maxTokens ≤ tokens.length then
    let maxTokens := limits.maxTokens
    .error ⟨.limit, s!"expression exceeds token limit of {maxTokens}", none⟩
  else .ok (tokens ++ [kind])

/-- `Lexer::run`: skip ASCII whitespace, read one token at a time, and end with `Eof`. -/
def run (limits : CompilationLimits) (cs : List Char) (tokens : List TokenKind) :
    Except ExpressionError (List TokenKind) :=
  match cs with
  | [] => push limits tokens .eof
  | c :: rest =>
    if Rust.isAsciiWhitespace c then run limits rest tokens
    else
      match h : scanToken c rest with
      | .error e => .error e
      | .ok (kind, after) =>
        have := scanToken_length h
        match push limits tokens kind with
        | .error e => .error e
        | .ok tokens => run limits after tokens
termination_by cs.length
decreasing_by all_goals simp only [List.length_cons]; omega

end Lexer

/-- `lex`: a source longer than `max_source_bytes` is refused before it is read. -/
def lex (limits : CompilationLimits) (source : String) : Except ExpressionError (List TokenKind) :=
  if source.utf8ByteSize > limits.maxSourceBytes then
    let length := source.utf8ByteSize
    let maxSourceBytes := limits.maxSourceBytes
    .error ⟨.limit, s!"expression source is {length} bytes; limit is {maxSourceBytes}", none⟩
  else Lexer.run limits source.toList []


/-! ## The lexer's numbers and `valid_unsigned_number_token`

The two are written separately in the source, one reading from a cursor and raising errors,
the other answering a boolean.  They read the same three parts. -/

namespace Lexer

lemma validIntegerPart_eq_some {first : Char} {rest after : List Char} :
    validIntegerPart (first :: rest) = some after ↔
      first.isDigit ∧ ∃ part, integerPart first rest = .ok (part, after) := by
  simp only [validIntegerPart, integerPart]
  by_cases hzero : first = '0'
  · -- a lone `0`, which no digit may follow
    subst hzero
    cases rest with
    | nil => simp [eq_comm]
    | cons c tail => by_cases hc : c.isDigit <;> simp [hc, eq_comm]
  · by_cases hdigit : first.isDigit <;> simp [hzero, hdigit, eq_comm]

lemma validFractionPart_eq_some {after rest : List Char} :
    validFractionPart after = some rest ↔ ∃ part, fractionPart after = .ok (part, rest) := by
  unfold validFractionPart fractionPart
  split
  · rename_i more
    by_cases hdigits : (more.takeWhile Char.isDigit).isEmpty = true <;> simp [hdigits]
  · simp

lemma validExponentPart_eq_some {after rest : List Char} :
    validExponentPart after = some rest ↔ ∃ part, exponentPart after = .ok (part, rest) := by
  cases after with
  | nil => simp [validExponentPart, exponentPart]
  | cons e more =>
    by_cases he : (e = 'e' || e = 'E') = true
    · -- the sign is read the same way by both
      cases more with
      | nil => simp [validExponentPart, exponentPart, exponentSign, he]
      | cons s more' =>
        by_cases hs : (s = '+' || s = '-') = true
        · simp only [validExponentPart, exponentPart, exponentSign, he, hs, if_true]
          split_ifs <;> simp
        · simp only [validExponentPart, exponentPart, exponentSign, he, hs, if_true]
          split_ifs <;> simp
    · simp [validExponentPart, exponentPart, he]

/-- **The two number grammars agree**: `valid_unsigned_number_token` accepts exactly the texts
that `Lexer::number` reads whole from their first digit. -/
theorem validUnsignedNumberToken_iff (value : List Char) :
    validUnsignedNumberToken value = true ↔
      ∃ first rest, value = first :: rest ∧ first.isDigit ∧
        number first rest = .ok (.number (String.ofList value), []) := by
  unfold validUnsignedNumberToken
  simp only [decide_eq_true_eq, Option.bind_eq_bind, Option.bind_eq_some_iff]
  constructor
  · rintro ⟨after₂, ⟨after₁, hinteger, hfraction⟩, hexponent⟩
    obtain ⟨first, rest, rfl⟩ : ∃ first rest, value = first :: rest := by
      cases value with
      | nil => simp [validIntegerPart] at hinteger
      | cons first rest => exact ⟨first, rest, rfl⟩
    obtain ⟨hdigit, integer, hi⟩ := validIntegerPart_eq_some.mp hinteger
    obtain ⟨fraction, hf⟩ := validFractionPart_eq_some.mp hfraction
    obtain ⟨exponent, he⟩ := validExponentPart_eq_some.mp hexponent
    refine ⟨first, rest, rfl, hdigit, ?_⟩
    -- the three parts read the whole text
    obtain ⟨digits, rfl, hdigits⟩ := integerPart_eq_ok hi
    have htext : first :: digits ++ fraction ++ exponent = first :: rest := by
      rw [← hdigits, ← fractionPart_eq_ok hf, ← exponentPart_eq_ok he]
      simp
    simp only [number, hi, hf, he, Except.ok_bind]
    rw [htext]
    rfl
  · rintro ⟨first, rest, rfl, hdigit, h⟩
    obtain ⟨⟨integer, after₁⟩, hi, h⟩ := Except.bind_eq_ok.mp h
    obtain ⟨⟨fraction, after₂⟩, hf, h⟩ := Except.bind_eq_ok.mp h
    obtain ⟨⟨exponent, after₃⟩, he, h⟩ := Except.bind_eq_ok.mp h
    obtain ⟨-, rfl⟩ := Prod.mk.inj (Except.ok.inj h)
    exact ⟨after₂, ⟨after₁, validIntegerPart_eq_some.mpr ⟨hdigit, _, hi⟩,
      validFractionPart_eq_some.mpr ⟨_, hf⟩⟩, validExponentPart_eq_some.mpr ⟨_, he⟩⟩

/-! ## Runs of the lexer -/

/-- `run` adds at least the final `Eof` to the tokens it started with. -/
lemma run_eq_ok {limits : CompilationLimits} {cs : List Char} {tokens out : List TokenKind}
    (h : run limits cs tokens = .ok out) : ∃ more, out = tokens ++ more ∧ more ≠ [] := by
  induction cs, tokens using run.induct limits with
  | case1 tokens =>
    rw [run] at h
    unfold push at h
    split_ifs at h
    cases h
    exact ⟨[.eof], rfl, by simp⟩
  | case2 tokens c rest hws ih =>
    rw [run, if_pos hws] at h
    exact ih h
  | case3 tokens c rest hws e hscan =>
    rw [run, if_neg hws] at h
    split at h
    · cases h
    · rename_i hscan'
      rw [hscan] at hscan'
      cases hscan'
  | case4 tokens c rest hws kind after hscan hshort e hpush =>
    rw [run, if_neg hws] at h
    split at h
    · cases h
    · rename_i hscan'
      rw [hscan] at hscan'
      cases hscan'
      rw [hpush] at h
      cases h
  | case5 tokens c rest hws kind after hscan hshort tokens' hpush ih =>
    rw [run, if_neg hws] at h
    split at h
    · rename_i hscan'
      rw [hscan] at hscan'
      cases hscan'
    · rename_i hscan'
      rw [hscan] at hscan'
      cases hscan'
      rw [hpush] at h
      obtain ⟨more, rfl, hmore⟩ := ih h
      unfold push at hpush
      split_ifs at hpush
      cases hpush
      exact ⟨kind :: more, by simp, by simp⟩

/-- One step of `run` past a character that is not whitespace. -/
lemma run_cons_of_scanToken {limits : CompilationLimits} {c : Char} {rest after : List Char}
    {tokens : List TokenKind} {kind : TokenKind} (hws : Rust.isAsciiWhitespace c = false)
    (hscan : scanToken c rest = .ok (kind, after)) :
    run limits (c :: rest) tokens = (push limits tokens kind >>= run limits after) := by
  rw [run, if_neg (by simp [hws])]
  split
  · rename_i hscan'
    rw [hscan] at hscan'
    cases hscan'
  · rename_i hscan'
    rw [hscan] at hscan'
    cases hscan'
    cases push limits tokens kind <;> rfl

/-- A run that adds only `Eof` read nothing but whitespace. -/
lemma run_eq_eof {limits : CompilationLimits} {cs : List Char} {tokens : List TokenKind}
    (h : run limits cs tokens = .ok (tokens ++ [.eof])) :
    ∀ c ∈ cs, Rust.isAsciiWhitespace c = true := by
  induction cs with
  | nil => simp
  | cons c rest ih =>
    by_cases hws : Rust.isAsciiWhitespace c = true
    · rw [run, if_pos hws] at h
      exact List.forall_mem_cons.mpr ⟨hws, ih h⟩
    · exfalso
      rw [run, if_neg hws] at h
      split at h
      · cases h
      · split at h
        · cases h
        · rename_i tokens' hpush
          -- a token was pushed, so the run ends with two tokens more
          obtain ⟨more, hout, hmore⟩ := run_eq_ok h
          unfold push at hpush
          split_ifs at hpush
          cases hpush
          have := congrArg List.length hout
          simp only [List.length_append, List.length_singleton] at this
          have := List.length_pos_of_ne_nil hmore
          omega

/-- A run from no tokens to exactly one token and `Eof`: whitespace, the token, whitespace. -/
lemma run_eq_single {limits : CompilationLimits} {cs : List Char} {kind : TokenKind}
    (h : run limits cs [] = .ok [kind, .eof]) :
    ∃ spaces c rest after, cs = spaces ++ c :: rest ∧
      (∀ w ∈ spaces, Rust.isAsciiWhitespace w = true) ∧ Rust.isAsciiWhitespace c = false ∧
      scanToken c rest = .ok (kind, after) ∧ ∀ w ∈ after, Rust.isAsciiWhitespace w = true := by
  induction cs with
  | nil =>
    rw [run] at h
    unfold push at h
    split_ifs at h
    cases h
  | cons c rest ih =>
    by_cases hws : Rust.isAsciiWhitespace c = true
    · rw [run, if_pos hws] at h
      obtain ⟨spaces, d, rest', after, rfl, hspaces, hd, hscan, hafter⟩ := ih h
      exact ⟨c :: spaces, d, rest', after, rfl, List.forall_mem_cons.mpr ⟨hws, hspaces⟩, hd,
        hscan, hafter⟩
    · rw [run, if_neg hws] at h
      split at h
      · cases h
      · rename_i kind' after hscan
        split at h
        · cases h
        · rename_i tokens' hpush
          unfold push at hpush
          split_ifs at hpush
          cases hpush
          -- the one token pushed is the token of the result
          obtain ⟨more, hout, -⟩ := run_eq_ok h
          simp only [List.nil_append, List.singleton_append, List.cons.injEq] at hout
          obtain ⟨rfl, rfl⟩ := hout
          exact ⟨[], c, rest, after, rfl, by simp, by simpa using hws, hscan, run_eq_eof h⟩

lemma not_isAlpha_of_isDigit {c : Char} (h : c.isDigit = true) : c.isAlpha = false := by
  simp only [Char.isDigit, Char.isAlpha, Char.isUpper, Char.isLower, Bool.and_eq_true,
    decide_eq_true_eq, UInt32.le_iff_toNat_le, ge_iff_le, Bool.or_eq_false_iff,
    Bool.and_eq_false_iff, decide_eq_false_iff_not, not_le] at h ⊢
  have : '9'.val.toNat = 57 := rfl
  have : 'A'.val.toNat = 65 := rfl
  have : 'a'.val.toNat = 97 := rfl
  omega

lemma isAsciiWhitespace_of_isDigit {c : Char} (h : c.isDigit = true) :
    Rust.isAsciiWhitespace c = false := by
  have hd : 48 ≤ c.toNat := (Char.isDigit_iff_toNat.mp h).1
  have hne : ∀ w : Char, w.toNat < 48 → c ≠ w := fun w hw hcw => by
    rw [hcw] at hd
    omega
  simp only [Rust.isAsciiWhitespace, Bool.or_eq_false_iff, decide_eq_false_iff_not]
  exact ⟨⟨⟨⟨hne ' ' (by decide), hne '\t' (by decide)⟩, hne '\n' (by decide)⟩,
    hne '\x0C' (by decide)⟩, hne '\r' (by decide)⟩

/-- From a digit, `scanToken` is `Lexer::number`. -/
lemma scanToken_of_isDigit {c : Char} {rest : List Char} (h : c.isDigit = true) :
    scanToken c rest = number c rest := by
  have hunderscore : c ≠ '_' := by
    rintro rfl
    cases h
  unfold scanToken
  rw [if_neg (by simp [not_isAlpha_of_isDigit h, hunderscore]), if_pos h]

/-- An identifier is never a number token. -/
lemma identifier_ne_number (first : Char) (rest : List Char) (text : String) :
    (identifier first rest).1 ≠ .number text := by
  unfold identifier
  dsimp only
  split_ifs <;> simp

/-- Only a digit starts a number token. -/
lemma scanToken_number {c : Char} {rest after : List Char} {text : String}
    (h : scanToken c rest = .ok (.number text, after)) :
    c.isDigit = true ∧ number c rest = .ok (.number text, after) := by
  unfold scanToken at h
  split_ifs at h with hident hdigit hquote
  · exact absurd (congrArg Prod.fst (Except.ok.inj h)) (identifier_ne_number c rest text)
  · exact ⟨hdigit, h⟩
  · obtain ⟨⟨value, hvalue⟩, -⟩ := string_eq_ok h
    cases hvalue
  · split at h <;> cases h

end Lexer

/-- **The texts the lexer reads as one number token.**  Under limits that let the text through,
`lex` turns `u` into exactly `Number(u)` and `Eof` when `valid_unsigned_number_token` accepts
`u`. -/
theorem lex_eq_number_iff {limits : CompilationLimits} {u : String}
    (hbytes : u.utf8ByteSize ≤ limits.maxSourceBytes) (htokens : 2 ≤ limits.maxTokens) :
    lex limits u = .ok [.number u, .eof] ↔ validUnsignedNumberToken u.toList = true := by
  rw [lex, if_neg (by omega), Lexer.validUnsignedNumberToken_iff]
  constructor
  · intro h
    obtain ⟨spaces, c, rest, after, hu, -, -, hscan, -⟩ := Lexer.run_eq_single h
    obtain ⟨hdigit, hnumber⟩ := Lexer.scanToken_number hscan
    obtain ⟨text, htext, hafter⟩ := Lexer.number_eq_ok hnumber
    -- the token's text is all of `u`, so nothing stood before or after it
    have hu' : u.toList = c :: text := by
      cases htext
      simp
    have hlength := congrArg List.length (hu.symm.trans hu')
    rw [← hafter] at hlength
    simp only [List.length_append, List.length_cons] at hlength
    have hspaces : spaces = [] := List.eq_nil_of_length_eq_zero (by omega)
    have hafter' : after = [] := List.eq_nil_of_length_eq_zero (by omega)
    subst hspaces hafter'
    simp only [List.append_nil] at hafter
    subst hafter
    refine ⟨c, text, hu', hdigit, ?_⟩
    rw [hnumber, String.ofList_toList]
  · rintro ⟨first, rest, hu, hdigit, hnumber⟩
    rw [hu, Lexer.run_cons_of_scanToken (Lexer.isAsciiWhitespace_of_isDigit hdigit)
      ((Lexer.scanToken_of_isDigit hdigit).trans hnumber), String.ofList_toList]
    simp only [Lexer.push, List.length_nil, List.nil_append]
    rw [if_neg (by omega), Except.ok_bind, Lexer.run, Lexer.push, if_neg (by simp; omega)]
    rfl

end Ryeos.Expression
