import Ryeos.Core.Json
import Ryeos.Core.Hex

/-!
# JSON text

Reading and writing JSON text (RFC 8259) over the value type `Json N`.

**Reading.**  `JsonText.decode num maxDepth cs` reads one value and then nothing but whitespace.

* whitespace is space, tab, line feed and carriage return;
* a string is read by `parseChars`: the two-character escapes, `\uXXXX` with hex digits of either
  case, a UTF-16 surrogate pair for a character outside the basic plane; a control character, an
  unknown escape and a lone surrogate are refused;
* a number is an integer literal `-? (0 | [1-9][0-9]*)`, and the JSON library decides with
  `num negative magnitude` how to store it (`none`: its number type has no room for it); a
  literal with a fraction or an exponent is not decoded;
* object members are inserted in order into a key-ordered member list
  (`Json.insertField`), a later member replacing an earlier one with the same key;
* at most `maxDepth` arrays and objects may nest (RFC 8259 §9 lets a parser set this limit);
  `decodeUnbounded` sets none, since a text of length `n` nests fewer than `n` deep.

Every call of `parseValue`, `parseElements` and `parseMembers` consumes a unit of fuel; each one
reads at least one character before the next, so a text of length `n` needs at most `n + 1`.

**Writing.**  `JsonText.write str wnum v` is the compact text of `v`: no whitespace, members in
list order, strings and numbers written by the writers given.

**Round trip.**  When the string writer and the number writer read back
(`StringWriter`, `NumberWriter`), the text of every ordered value decodes to the value itself,
exactly when its nesting fits under the limit (`decode_write`, `decode_write_of_lt_depth`).
-/

namespace Ryeos

namespace JsonText

variable {N : Type}

/-! ## Characters and strings -/

/-- The four whitespace characters of the grammar. -/
def isWs (c : Char) : Bool :=
  c == ' ' || c == '\t' || c == '\n' || c == '\r'

/-- Skip whitespace. -/
def skipWs : List Char → List Char
  | [] => []
  | c :: cs => if isWs c then skipWs cs else c :: cs

/-- The character a two-character escape `\e` stands for. -/
def unescape : Char → Option Char
  | '"' => some '"'
  | '\\' => some '\\'
  | '/' => some '/'
  | 'b' => some '\x08'
  | 'f' => some '\x0C'
  | 'n' => some '\n'
  | 'r' => some '\r'
  | 't' => some '\t'
  | _ => none

/-- A UTF-16 code unit that opens a surrogate pair. -/
def isHighSurrogate (n : Nat) : Bool := 0xD800 ≤ n && n < 0xDC00

/-- A UTF-16 code unit that closes a surrogate pair. -/
def isLowSurrogate (n : Nat) : Bool := 0xDC00 ≤ n && n < 0xE000

/-- The scalar value a surrogate pair stands for. -/
def combineSurrogates (hi lo : Nat) : Nat := 0x10000 + (hi - 0xD800) * 0x400 + (lo - 0xDC00)

/-- Put one decoded character in front of what reading the rest of a string gave. -/
def consChar (c : Char) : Option (List Char × List Char) → Option (List Char × List Char)
  | some (s, rest) => some (c :: s, rest)
  | none => none

/-- **The characters of a string**, read after its opening quote up to and past the closing
one: the decoded characters and what follows the string. -/
def parseChars : List Char → Option (List Char × List Char)
  | [] => none
  | c :: rest =>
    if c = '"' then some ([], rest)
    else if c = '\\' then
      match rest with
      | e :: more =>
        if e = 'u' then
          match more with
          | a :: b :: c :: d :: after =>
            match Hex.value [a, b, c, d] with
            | none => none
            | some n =>
              if isHighSurrogate n then
                -- the low half must follow at once, as another `\u` escape
                match after with
                | '\\' :: 'u' :: e :: f :: g :: h :: after₂ =>
                  match Hex.value [e, f, g, h] with
                  | some m =>
                    if isLowSurrogate m then
                      consChar (Char.ofNat (combineSurrogates n m)) (parseChars after₂)
                    else none
                  | none => none
                | _ => none
              else if isLowSurrogate n then none
              else consChar (Char.ofNat n) (parseChars after)
          | _ => none
        else
          match unescape e with
          | some c => consChar c (parseChars more)
          | none => none
      | [] => none
    else if c.toNat < 0x20 then none
    else consChar c (parseChars rest)

/-- A string token: its opening quote, then `parseChars`. -/
def parseString : List Char → Option (String × List Char)
  | '"' :: rest => (parseChars rest).map fun p => (String.ofList p.1, p.2)
  | _ => none

/-- An object key and the colon after it. -/
def parseKey (cs : List Char) : Option (String × List Char) :=
  match parseString (skipWs cs) with
  | some (k, rest) =>
    match skipWs rest with
    | ':' :: rest' => some (k, rest')
    | _ => none
  | none => none

/-! ## Numbers and literals -/

/-- Whether the text starts with a digit. -/
def startsWithDigit : List Char → Bool
  | c :: _ => c.isDigit
  | [] => false

/-- Whether a number literal goes on past its integer part, with a fraction or an exponent. -/
def continuesNumber : List Char → Bool
  | c :: _ => c == '.' || c == 'e' || c == 'E'
  | [] => false

/-- The value of a list of decimal digits. -/
def digitsValue (ds : List Char) : Nat :=
  ds.foldl (fun acc d => 10 * acc + (d.toNat - '0'.toNat)) 0

/-- After the integer part of a literal: the JSON library stores it as `num negative m`. -/
def finishInteger (num : Bool → Nat → Option N) (negative : Bool) (m : Nat) (rest : List Char) :
    Option (Json N × List Char) :=
  if continuesNumber rest then none else (num negative m).map fun n => (.number n, rest)

/-- The integer part of a number: one `0`, or a nonzero digit and the digits after it. -/
def parseInteger (num : Bool → Nat → Option N) (negative : Bool) :
    List Char → Option (Json N × List Char)
  | [] => none
  | d :: rest =>
    if d = '0' then
      if startsWithDigit rest then none else finishInteger num negative 0 rest
    else if d.isDigit then
      finishInteger num negative (digitsValue (d :: rest.takeWhile Char.isDigit))
        (rest.dropWhile Char.isDigit)
    else none

/-- A number: an optional minus sign, then the integer part. -/
def parseNumber (num : Bool → Nat → Option N) : List Char → Option (Json N × List Char)
  | [] => none
  | c :: rest => if c = '-' then parseInteger num true rest else parseInteger num false (c :: rest)

/-- The rest of a literal name after its first letter. -/
def parseLiteral (word : List Char) (v : Json N) (cs : List Char) : Option (Json N × List Char) :=
  if word.isPrefixOf cs then some (v, cs.drop word.length) else none

/-! ## Values -/

mutual

/-- **One value**, after optional whitespace: the value and what follows it.  `depth` is how
many more arrays and objects may open. -/
def parseValue (num : Bool → Nat → Option N) : Nat → Nat → List Char → Option (Json N × List Char)
  | 0, _, _ => none
  | fuel + 1, depth, cs =>
    match skipWs cs with
    | [] => none
    | c :: rest =>
      if c = '[' then
        if depth = 0 then none
        else
          match skipWs rest with
          | ']' :: rest' => some (.array [], rest')
          | _ =>
            match parseValue num fuel (depth - 1) rest with
            | some (v, rest') => parseElements num fuel (depth - 1) [v] rest'
            | none => none
      else if c = '{' then
        if depth = 0 then none
        else
          match skipWs rest with
          | '}' :: rest' => some (.object [], rest')
          | _ =>
            match parseKey rest with
            | some (k, rest') =>
              match parseValue num fuel (depth - 1) rest' with
              | some (v, rest'') => parseMembers num fuel (depth - 1) (Json.insertField k v []) rest''
              | none => none
            | none => none
      else if c = '"' then (parseChars rest).map fun p => (.string (String.ofList p.1), p.2)
      else if c = 'n' then parseLiteral ['u', 'l', 'l'] .null rest
      else if c = 't' then parseLiteral ['r', 'u', 'e'] (.bool true) rest
      else if c = 'f' then parseLiteral ['a', 'l', 's', 'e'] (.bool false) rest
      else parseNumber num (c :: rest)

/-- The items of an array after its first, each after a comma, up to the closing bracket. -/
def parseElements (num : Bool → Nat → Option N) :
    Nat → Nat → List (Json N) → List Char → Option (Json N × List Char)
  | 0, _, _, _ => none
  | fuel + 1, depth, acc, cs =>
    match skipWs cs with
    | ']' :: rest => some (.array acc, rest)
    | ',' :: rest =>
      match parseValue num fuel depth rest with
      | some (v, rest') => parseElements num fuel depth (acc ++ [v]) rest'
      | none => none
    | _ => none

/-- The members of an object after its first, each after a comma, up to the closing brace. -/
def parseMembers (num : Bool → Nat → Option N) :
    Nat → Nat → List (String × Json N) → List Char → Option (Json N × List Char)
  | 0, _, _, _ => none
  | fuel + 1, depth, acc, cs =>
    match skipWs cs with
    | '}' :: rest => some (.object acc, rest)
    | ',' :: rest =>
      match parseKey rest with
      | some (k, rest') =>
        match parseValue num fuel depth rest' with
        | some (v, rest'') => parseMembers num fuel depth (Json.insertField k v acc) rest''
        | none => none
      | none => none
    | _ => none

end

/-- **A whole text**: one value, then only whitespace, nesting at most `maxDepth` deep. -/
def decode (num : Bool → Nat → Option N) (maxDepth : Nat) (cs : List Char) : Option (Json N) :=
  match parseValue num (cs.length + 1) maxDepth cs with
  | some (v, rest) => if skipWs rest = [] then some v else none
  | none => none

/-- A whole text with no limit on nesting. -/
def decodeUnbounded (num : Bool → Nat → Option N) (cs : List Char) : Option (Json N) :=
  decode num cs.length cs

-- an unterminated string, and a reader out of fuel, read nothing
attribute [simp] parseChars.eq_1 parseValue.eq_1 parseElements.eq_1 parseMembers.eq_1

/-! ## Reading, one construct at a time -/

lemma isWs_eq_false_of_isDigit {c : Char} (h : c.isDigit = true) : isWs c = false := by
  have hd : 48 ≤ c.toNat := (Char.isDigit_iff_toNat.mp h).1
  have hne : ∀ w : Char, w.toNat < 48 → c ≠ w := fun w hw hcw => by
    rw [hcw] at hd
    omega
  simp only [isWs, Bool.or_eq_false_iff, beq_eq_false_iff_ne]
  exact ⟨⟨⟨hne ' ' (by decide), hne '\t' (by decide)⟩, hne '\n' (by decide)⟩, hne '\r' (by decide)⟩

lemma skipWs_of_not_ws {c : Char} (h : isWs c = false) (cs : List Char) :
    skipWs (c :: cs) = c :: cs := by
  simp [skipWs, h]

@[simp] lemma consChar_some (c : Char) (s rest : List Char) :
    consChar c (some (s, rest)) = some (c :: s, rest) := rfl

lemma parseChars_quote (rest : List Char) : parseChars ('"' :: rest) = some ([], rest) := by
  rw [parseChars.eq_def]
  dsimp only
  rw [if_pos rfl]

/-- A character other than the quote, the backslash and the control characters stands for
itself. -/
lemma parseChars_plain {c : Char} (hq : c ≠ '"') (hb : c ≠ '\\') (hc : 0x20 ≤ c.toNat)
    (rest : List Char) : parseChars (c :: rest) = consChar c (parseChars rest) := by
  rw [parseChars.eq_def]
  dsimp only
  rw [if_neg hq, if_neg hb, if_neg (by omega)]

lemma parseChars_escape {e c : Char} (hu : e ≠ 'u') (he : unescape e = some c)
    (rest : List Char) : parseChars ('\\' :: e :: rest) = consChar c (parseChars rest) := by
  rw [parseChars.eq_def]
  dsimp only
  rw [if_neg (by decide), if_pos rfl, if_neg hu, he]

/-- A `\u` escape of four hex digits outside the surrogate range stands for that character. -/
lemma parseChars_unicode {n : Nat} (hn : n < 0x10000) (hs : ¬ (0xD800 ≤ n ∧ n < 0xE000))
    (rest : List Char) :
    parseChars ('\\' :: 'u' :: (Hex.fixed 4 n ++ rest)) =
      consChar (Char.ofNat n) (parseChars rest) := by
  obtain ⟨a, b, c, d, hds⟩ : ∃ a b c d, Hex.fixed 4 n = [a, b, c, d] := ⟨_, _, _, _, rfl⟩
  have hv : Hex.value [a, b, c, d] = some n := hds ▸ Hex.value_fixed_of_lt hn
  have hhi : isHighSurrogate n = false := by
    simp only [isHighSurrogate, Bool.and_eq_false_iff, decide_eq_false_iff_not]
    omega
  have hlo : isLowSurrogate n = false := by
    simp only [isLowSurrogate, Bool.and_eq_false_iff, decide_eq_false_iff_not]
    omega
  rw [hds, parseChars.eq_def]
  dsimp only
  rw [if_neg (by decide), if_pos rfl, if_pos rfl]
  simp only [List.cons_append, List.nil_append, hv, hhi, hlo]
  rfl

/-- Two `\u` escapes forming a surrogate pair stand for the character outside the basic plane. -/
lemma parseChars_surrogates {hi lo : Nat} (hhi : 0xD800 ≤ hi ∧ hi < 0xDC00)
    (hlo : 0xDC00 ≤ lo ∧ lo < 0xE000) (rest : List Char) :
    parseChars ('\\' :: 'u' :: (Hex.fixed 4 hi ++ '\\' :: 'u' :: (Hex.fixed 4 lo ++ rest))) =
      consChar (Char.ofNat (combineSurrogates hi lo)) (parseChars rest) := by
  obtain ⟨a, b, c, d, hds⟩ : ∃ a b c d, Hex.fixed 4 hi = [a, b, c, d] := ⟨_, _, _, _, rfl⟩
  obtain ⟨e, f, g, h, hes⟩ : ∃ e f g h, Hex.fixed 4 lo = [e, f, g, h] := ⟨_, _, _, _, rfl⟩
  have hv : Hex.value [a, b, c, d] = some hi := hds ▸ Hex.value_fixed_of_lt (by omega)
  have hw : Hex.value [e, f, g, h] = some lo := hes ▸ Hex.value_fixed_of_lt (by omega)
  have hhigh : isHighSurrogate hi = true := by
    simp only [isHighSurrogate, Bool.and_eq_true, decide_eq_true_eq]
    omega
  have hlow : isLowSurrogate lo = true := by
    simp only [isLowSurrogate, Bool.and_eq_true, decide_eq_true_eq]
    omega
  rw [hds, hes, parseChars.eq_def]
  dsimp only
  rw [if_neg (by decide), if_pos rfl, if_pos rfl]
  simp only [List.cons_append, List.nil_append, hv, hw, hhigh, hlow]
  rfl

/-! ### Integer literals -/

lemma digitsValue_append_singleton (ds : List Char) (d : Char) :
    digitsValue (ds ++ [d]) = 10 * digitsValue ds + (d.toNat - '0'.toNat) := by
  simp [digitsValue, List.foldl_append]

lemma digitsValue_toDigits (m : Nat) : digitsValue (Nat.toDigits 10 m) = m := by
  induction m using Nat.strong_induction_on with
  | _ m ih =>
    by_cases hm : m < 10
    · rw [Nat.toDigits_of_lt_base hm, ← List.nil_append [Nat.digitChar m],
        digitsValue_append_singleton]
      have hd := Nat.toNat_digitChar_sub_48_of_lt_ten hm
      change 10 * 0 + (m.digitChar.toNat - 48) = m
      omega
    · rw [Nat.toDigits_of_base_le (by decide) (by omega), digitsValue_append_singleton,
        ih (m / 10) (by omega)]
      have hd := Nat.toNat_digitChar_sub_48_of_lt_ten (Nat.mod_lt m (show 10 > 0 by decide))
      change 10 * (m / 10) + ((m % 10).digitChar.toNat - 48) = m
      omega

lemma digitChar_ne_zero : ∀ m, m < 10 → 0 < m → Nat.digitChar m ≠ '0' := by
  decide

/-- The decimal digits of a positive number do not start with `0`. -/
lemma toDigits_head_ne_zero (m : Nat) (hm : 0 < m) :
    ∃ d ds, Nat.toDigits 10 m = d :: ds ∧ d ≠ '0' := by
  induction m using Nat.strong_induction_on with
  | _ m ih =>
    by_cases hsmall : m < 10
    · exact ⟨_, [], Nat.toDigits_of_lt_base hsmall, digitChar_ne_zero m hsmall hm⟩
    · obtain ⟨d, ds, hds, hd⟩ := ih (m / 10) (by omega) (by omega)
      refine ⟨d, ds ++ [Nat.digitChar (m % 10)], ?_, hd⟩
      rw [Nat.toDigits_of_base_le (by decide) (by omega), hds, List.cons_append]

lemma isDigit_of_mem_toDigits {m : Nat} {c : Char} (h : c ∈ Nat.toDigits 10 m) :
    c.isDigit = true :=
  Nat.isDigit_of_mem_toDigits (by decide) (by decide) h

/-- **The decimal digits of `m` read back as `m`**, when no digit follows them. -/
lemma parseInteger_toDigits (num : Bool → Nat → Option N) (negative : Bool) (m : Nat)
    {rest : List Char} (hrest : startsWithDigit rest = false) :
    parseInteger num negative (Nat.toDigits 10 m ++ rest) = finishInteger num negative m rest := by
  rcases Nat.eq_zero_or_pos m with rfl | hm
  · simp [parseInteger, hrest]
  · obtain ⟨d, ds, hds, hd0⟩ := toDigits_head_ne_zero m hm
    have hdig : ∀ c ∈ d :: ds, c.isDigit = true := fun c hc => isDigit_of_mem_toDigits (hds ▸ hc)
    -- the digits after the first are all taken, and nothing of `rest`
    have hstop : rest.takeWhile Char.isDigit = [] ∧ rest.dropWhile Char.isDigit = rest := by
      cases rest with
      | nil => simp
      | cons c cs =>
        have hc : ¬ c.isDigit = true := by simpa [startsWithDigit] using hrest
        simp [hc]
    have htail : ∀ c ∈ ds, c.isDigit = true := fun c hc => hdig c (List.mem_cons_of_mem d hc)
    rw [hds, List.cons_append, parseInteger, if_neg hd0, if_pos (hdig d List.mem_cons_self),
      List.takeWhile_append_of_pos htail, List.dropWhile_append_of_pos htail, hstop.1, hstop.2,
      List.append_nil, ← hds, digitsValue_toDigits]

/-! ### Equations of the value reader -/

variable (num : Bool → Nat → Option N)

lemma parseValue_succ (fuel depth : Nat) {c : Char} (hc : isWs c = false) (rest : List Char) :
    parseValue num (fuel + 1) depth (c :: rest) =
      if c = '[' then
        if depth = 0 then none
        else
          match skipWs rest with
          | ']' :: rest' => some (.array [], rest')
          | _ =>
            match parseValue num fuel (depth - 1) rest with
            | some (v, rest') => parseElements num fuel (depth - 1) [v] rest'
            | none => none
      else if c = '{' then
        if depth = 0 then none
        else
          match skipWs rest with
          | '}' :: rest' => some (.object [], rest')
          | _ =>
            match parseKey rest with
            | some (k, rest') =>
              match parseValue num fuel (depth - 1) rest' with
              | some (v, rest'') =>
                parseMembers num fuel (depth - 1) (Json.insertField k v []) rest''
              | none => none
            | none => none
      else if c = '"' then (parseChars rest).map fun p => (.string (String.ofList p.1), p.2)
      else if c = 'n' then parseLiteral ['u', 'l', 'l'] .null rest
      else if c = 't' then parseLiteral ['r', 'u', 'e'] (.bool true) rest
      else if c = 'f' then parseLiteral ['a', 'l', 's', 'e'] (.bool false) rest
      else parseNumber num (c :: rest) := by
  rw [parseValue, skipWs_of_not_ws hc]

lemma parseValue_empty_array (fuel depth : Nat) (hd : depth ≠ 0) (rest : List Char) :
    parseValue num (fuel + 1) depth ('[' :: ']' :: rest) = some (.array [], rest) := by
  rw [parseValue_succ num fuel depth (by decide), if_pos rfl, if_neg hd,
    skipWs_of_not_ws (by decide)]
  simp only

/-- Text that starts with a character other than whitespace and the two closing brackets, as
every written value does. -/
def Opens (cs : List Char) : Prop :=
  ∃ c rest, cs = c :: rest ∧ isWs c = false ∧ c ≠ ']' ∧ c ≠ '}'

lemma parseValue_array (fuel depth : Nat) (hd : depth ≠ 0) {rest : List Char} (h : Opens rest) :
    parseValue num (fuel + 1) depth ('[' :: rest) =
      (parseValue num fuel (depth - 1) rest).bind
        fun p => parseElements num fuel (depth - 1) [p.1] p.2 := by
  obtain ⟨c, rest, rfl, hc, hcb, -⟩ := h
  rw [parseValue_succ num fuel depth (by decide), if_pos rfl, if_neg hd, skipWs_of_not_ws hc]
  split
  · next rest' heq =>
    simp only [List.cons.injEq] at heq
    exact absurd heq.1 hcb
  · cases parseValue num fuel (depth - 1) (c :: rest) <;> rfl

lemma parseValue_empty_object (fuel depth : Nat) (hd : depth ≠ 0) (rest : List Char) :
    parseValue num (fuel + 1) depth ('{' :: '}' :: rest) = some (.object [], rest) := by
  rw [parseValue_succ num fuel depth (by decide), if_neg (by decide), if_pos rfl, if_neg hd,
    skipWs_of_not_ws (by decide)]
  simp only

lemma parseValue_object (fuel depth : Nat) (hd : depth ≠ 0) {rest : List Char} (h : Opens rest) :
    parseValue num (fuel + 1) depth ('{' :: rest) =
      (parseKey rest).bind fun p =>
        (parseValue num fuel (depth - 1) p.2).bind
          fun q => parseMembers num fuel (depth - 1) (Json.insertField p.1 q.1 []) q.2 := by
  obtain ⟨c, rest, rfl, hc, -, hcb⟩ := h
  rw [parseValue_succ num fuel depth (by decide), if_neg (by decide), if_pos rfl, if_neg hd,
    skipWs_of_not_ws hc]
  split
  · next rest' heq =>
    simp only [List.cons.injEq] at heq
    exact absurd heq.1 hcb
  · rcases parseKey (c :: rest) with _ | ⟨k, rest'⟩
    · rfl
    · simp only [Option.bind_some]
      cases parseValue num fuel (depth - 1) rest' <;> rfl

/-- With no depth left, an array or an object is refused. -/
lemma parseValue_open_of_depth_zero (fuel : Nat) {c : Char} (hc : c = '[' ∨ c = '{')
    (rest : List Char) : parseValue num (fuel + 1) 0 (c :: rest) = none := by
  rcases hc with rfl | rfl
  · rw [parseValue_succ num fuel 0 (by decide), if_pos rfl, if_pos rfl]
  · rw [parseValue_succ num fuel 0 (by decide), if_neg (by decide), if_pos rfl, if_pos rfl]

lemma parseValue_string (fuel depth : Nat) (rest : List Char) :
    parseValue num (fuel + 1) depth ('"' :: rest) =
      (parseChars rest).map fun p => (.string (String.ofList p.1), p.2) := by
  rw [parseValue_succ num fuel depth (by decide), if_neg (by decide), if_neg (by decide),
    if_pos rfl]

lemma parseValue_null (fuel depth : Nat) (rest : List Char) :
    parseValue num (fuel + 1) depth ('n' :: 'u' :: 'l' :: 'l' :: rest) = some (.null, rest) := by
  rw [parseValue_succ num fuel depth (by decide)]
  simp [parseLiteral]

lemma parseValue_true (fuel depth : Nat) (rest : List Char) :
    parseValue num (fuel + 1) depth ('t' :: 'r' :: 'u' :: 'e' :: rest) =
      some (.bool true, rest) := by
  rw [parseValue_succ num fuel depth (by decide)]
  simp [parseLiteral]

lemma parseValue_false (fuel depth : Nat) (rest : List Char) :
    parseValue num (fuel + 1) depth ('f' :: 'a' :: 'l' :: 's' :: 'e' :: rest) =
      some (.bool false, rest) := by
  rw [parseValue_succ num fuel depth (by decide)]
  simp [parseLiteral]

/-- A minus sign or a digit starts a number. -/
lemma parseValue_number (fuel depth : Nat) {c : Char} (hc : c = '-' ∨ c.isDigit = true)
    (rest : List Char) :
    parseValue num (fuel + 1) depth (c :: rest) = parseNumber num (c :: rest) := by
  have hws : isWs c = false := by
    rcases hc with rfl | hdig
    · decide
    · exact isWs_eq_false_of_isDigit hdig
  -- none of the other openers is a minus sign or a digit
  have hne : ∀ w : Char, w ≠ '-' → w.isDigit = false → c ≠ w := by
    rintro w hw hwd rfl
    rcases hc with h | h
    · exact hw h
    · rw [hwd] at h
      exact Bool.false_ne_true h
  rw [parseValue_succ num fuel depth hws, if_neg (hne '[' (by decide) (by decide)),
    if_neg (hne '{' (by decide) (by decide)), if_neg (hne '"' (by decide) (by decide)),
    if_neg (hne 'n' (by decide) (by decide)), if_neg (hne 't' (by decide) (by decide)),
    if_neg (hne 'f' (by decide) (by decide))]

lemma parseElements_close (fuel depth : Nat) (acc : List (Json N)) (rest : List Char) :
    parseElements num (fuel + 1) depth acc (']' :: rest) = some (.array acc, rest) := by
  rw [parseElements, skipWs_of_not_ws (by decide)]
  simp only

lemma parseElements_comma (fuel depth : Nat) (acc : List (Json N)) (rest : List Char) :
    parseElements num (fuel + 1) depth acc (',' :: rest) =
      (parseValue num fuel depth rest).bind
        fun p => parseElements num fuel depth (acc ++ [p.1]) p.2 := by
  rw [parseElements, skipWs_of_not_ws (by decide)]
  simp only
  cases parseValue num fuel depth rest <;> rfl

lemma parseMembers_close (fuel depth : Nat) (acc : List (String × Json N)) (rest : List Char) :
    parseMembers num (fuel + 1) depth acc ('}' :: rest) = some (.object acc, rest) := by
  rw [parseMembers, skipWs_of_not_ws (by decide)]
  simp only

lemma parseMembers_comma (fuel depth : Nat) (acc : List (String × Json N)) (rest : List Char) :
    parseMembers num (fuel + 1) depth acc (',' :: rest) =
      (parseKey rest).bind fun p =>
        (parseValue num fuel depth p.2).bind
          fun q => parseMembers num fuel depth (Json.insertField p.1 q.1 acc) q.2 := by
  rw [parseMembers, skipWs_of_not_ws (by decide)]
  simp only
  rcases parseKey rest with _ | ⟨k, rest'⟩
  · rfl
  · simp only [Option.bind_some]
    cases parseValue num fuel depth rest' <;> rfl

/-! ## Writing -/

section Writer

variable (str : String → List Char) (wnum : N → List Char)

mutual

/-- **The compact text of a value**: no whitespace, members in list order. -/
def write : Json N → List Char
  | .null => ['n', 'u', 'l', 'l']
  | .bool true => ['t', 'r', 'u', 'e']
  | .bool false => ['f', 'a', 'l', 's', 'e']
  | .number n => wnum n
  | .string s => str s
  | .array [] => ['[', ']']
  | .array (v :: vs) => '[' :: write v ++ writeElements vs
  | .object [] => ['{', '}']
  | .object ((k, v) :: fs) => '{' :: str k ++ ':' :: write v ++ writeMembers fs

/-- The items after the first, each after a comma, and the closing bracket. -/
def writeElements : List (Json N) → List Char
  | [] => [']']
  | v :: vs => ',' :: write v ++ writeElements vs

/-- The members after the first, each after a comma, and the closing brace. -/
def writeMembers : List (String × Json N) → List Char
  | [] => ['}']
  | (k, v) :: fs => ',' :: str k ++ ':' :: write v ++ writeMembers fs

end

end Writer

/-! ## Reading back what was written -/

/-- What may follow a value in compact text: the end, a comma, or a closing bracket or brace. -/
def Delimited : List Char → Prop
  | [] => True
  | c :: _ => c = ',' ∨ c = ']' ∨ c = '}'

lemma startsWithDigit_of_delimited {rest : List Char} (h : Delimited rest) :
    startsWithDigit rest = false := by
  cases rest with
  | nil => rfl
  | cons c cs => rcases h with rfl | rfl | rfl <;> rfl

lemma continuesNumber_of_delimited {rest : List Char} (h : Delimited rest) :
    continuesNumber rest = false := by
  cases rest with
  | nil => rfl
  | cons c cs => rcases h with rfl | rfl | rfl <;> rfl

/-- **An integer literal written as its decimal digits reads back**, with `num` choosing how the
library stores it. -/
lemma parseNumber_toDigits (m : Nat) {rest : List Char} (hrest : Delimited rest) :
    parseNumber num (Nat.toDigits 10 m ++ rest) =
      (num false m).map fun n => (.number n, rest) := by
  obtain ⟨d, ds, hds⟩ : ∃ d ds, Nat.toDigits 10 m = d :: ds := by
    cases h : Nat.toDigits 10 m with
    | nil => exact absurd h Nat.toDigits_ne_nil
    | cons d ds => exact ⟨d, ds, rfl⟩
  have hd : d ≠ '-' := by
    rintro rfl
    have := isDigit_of_mem_toDigits (m := m) (c := '-') (by rw [hds]; exact List.mem_cons_self)
    exact absurd this (by decide)
  rw [hds, List.cons_append, parseNumber, if_neg hd, ← List.cons_append, ← hds,
    parseInteger_toDigits num false m (startsWithDigit_of_delimited hrest), finishInteger,
    if_neg (by rw [continuesNumber_of_delimited hrest]; decide)]

lemma parseNumber_neg_toDigits (m : Nat) {rest : List Char} (hrest : Delimited rest) :
    parseNumber num ('-' :: (Nat.toDigits 10 m ++ rest)) =
      (num true m).map fun n => (.number n, rest) := by
  rw [parseNumber, if_pos rfl,
    parseInteger_toDigits num true m (startsWithDigit_of_delimited hrest), finishInteger,
    if_neg (by rw [continuesNumber_of_delimited hrest]; decide)]

/-- A string writer the reader undoes: an opening quote, then characters that `parseChars`
turns back into the string, up to and past the closing quote. -/
structure StringWriter (str : String → List Char) : Prop where
  reads : ∀ s, ∃ body, str s = '"' :: body ∧
    ∀ rest, parseChars (body ++ rest) = some (s.toList, rest)

/-- A number writer the reader undoes: a minus sign or a digit first, then a literal that `num`
stores as the number written. -/
structure NumberWriter (num : Bool → Nat → Option N) (wnum : N → List Char) : Prop where
  reads : ∀ n, ∃ c tail, wnum n = c :: tail ∧ (c = '-' ∨ c.isDigit = true) ∧
    ∀ rest, Delimited rest → parseNumber num (wnum n ++ rest) = some (.number n, rest)

section RoundTrip

variable {num} {str : String → List Char} {wnum : N → List Char}

lemma parseKey_write (hs : StringWriter str) (k : String) (rest : List Char) :
    parseKey (str k ++ ':' :: rest) = some (k, rest) := by
  obtain ⟨body, hbody, hread⟩ := hs.reads k
  rw [hbody, parseKey, List.cons_append, skipWs_of_not_ws (by decide), parseString, hread]
  simp only [Option.map_some, String.ofList_toList,
    skipWs_of_not_ws (show isWs ':' = false by decide)]

/-- **A written value opens with a character that starts a value**: not whitespace and not a
closing bracket. -/
lemma write_opens (hs : StringWriter str) (hn : NumberWriter num wnum) (v : Json N)
    (more : List Char) : Opens (write str wnum v ++ more) := by
  cases v with
  | null => exact ⟨'n', _, rfl, by decide, by decide, by decide⟩
  | bool b => cases b <;> exact ⟨_, _, rfl, by decide, by decide, by decide⟩
  | number n =>
    obtain ⟨c, tail, hw, hc, -⟩ := hn.reads n
    refine ⟨c, tail ++ more, by rw [write, hw, List.cons_append], ?_, ?_, ?_⟩
    · rcases hc with rfl | hdig
      · decide
      · exact isWs_eq_false_of_isDigit hdig
    all_goals
      rintro rfl
      rcases hc with h | h
      · exact absurd h (by decide)
      · exact absurd h (by decide)
  | string s =>
    obtain ⟨body, hbody, -⟩ := hs.reads s
    exact ⟨'"', body ++ more, by rw [write, hbody, List.cons_append], by decide, by decide,
      by decide⟩
  | array items => cases items <;> exact ⟨'[', _, rfl, by decide, by decide, by decide⟩
  | object fields =>
    cases fields with
    | nil => exact ⟨'{', _, rfl, by decide, by decide, by decide⟩
    | cons p fs => exact ⟨'{', _, rfl, by decide, by decide, by decide⟩

lemma opens_key (hs : StringWriter str) (k : String) (more : List Char) : Opens (str k ++ more) := by
  obtain ⟨body, hbody, -⟩ := hs.reads k
  exact ⟨'"', body ++ more, by rw [hbody, List.cons_append], by decide, by decide, by decide⟩

lemma length_write_pos (hs : StringWriter str) (hn : NumberWriter num wnum) (v : Json N) :
    0 < (write str wnum v).length := by
  obtain ⟨c, cs, hv, -⟩ := write_opens hs hn v []
  rw [List.append_nil] at hv
  simp [hv]

lemma delimited_writeElements (vs : List (Json N)) (rest : List Char) :
    Delimited (writeElements str wnum vs ++ rest) := by
  cases vs with
  | nil => exact Or.inr (Or.inl rfl)
  | cons v vs => exact Or.inl rfl

lemma delimited_writeMembers (fs : List (String × Json N)) (rest : List Char) :
    Delimited (writeMembers str wnum fs ++ rest) := by
  cases fs with
  | nil => exact Or.inr (Or.inr rfl)
  | cons p fs => exact Or.inl rfl

mutual

/-- **Reading back a written value**: an ordered value whose nesting fits under `depth` reads
back as itself, and the reader stops right after it. -/
theorem parseValue_write (hs : StringWriter str) (hn : NumberWriter num wnum) :
    ∀ (v : Json N), v.ordered = true → ∀ (fuel depth : Nat) (rest : List Char),
      v.depth ≤ depth → Delimited rest → (write str wnum v ++ rest).length < fuel →
      parseValue num fuel depth (write str wnum v ++ rest) = some (v, rest)
  | .null, _, fuel + 1, depth, rest, _, _, _ => parseValue_null num fuel depth rest
  | .bool true, _, fuel + 1, depth, rest, _, _, _ => parseValue_true num fuel depth rest
  | .bool false, _, fuel + 1, depth, rest, _, _, _ => parseValue_false num fuel depth rest
  | .number n, _, fuel + 1, depth, rest, _, hrest, _ => by
    obtain ⟨c, tail, hw, hc, hread⟩ := hn.reads n
    have h := hread rest hrest
    rw [hw, List.cons_append] at h
    rw [write, hw, List.cons_append, parseValue_number num fuel depth hc, h]
  | .string s, _, fuel + 1, depth, rest, _, _, _ => by
    obtain ⟨body, hbody, hread⟩ := hs.reads s
    rw [write, hbody, List.cons_append, parseValue_string, hread, Option.map_some,
      String.ofList_toList]
  | .array [], _, fuel + 1, depth, rest, hdepth, _, _ => by
    have hd : depth ≠ 0 := by
      simp only [Json.depth, Json.depthItems] at hdepth
      omega
    exact parseValue_empty_array num fuel depth hd rest
  | .array (v :: vs), hord, fuel + 1, depth, rest, hdepth, hrest, hlen => by
    simp only [Json.ordered, Json.orderedItems, Bool.and_eq_true] at hord
    simp only [Json.depth, Json.depthItems] at hdepth
    have hpos := length_write_pos hs hn v
    simp only [write, List.cons_append, List.length_cons, List.length_append] at hlen
    -- the first item, then the rest of the items from `parseElements`
    have hfirst : parseValue num fuel (depth - 1) (write str wnum v ++ (writeElements str wnum vs ++ rest)) =
        some (v, writeElements str wnum vs ++ rest) :=
      parseValue_write hs hn v hord.1 fuel (depth - 1) _ (by omega)
        (delimited_writeElements vs rest) (by simp only [List.length_append]; omega)
    have hnext : parseElements num fuel (depth - 1) [v] (writeElements str wnum vs ++ rest) =
        some (.array ([v] ++ vs), rest) :=
      parseElements_writeElements hs hn vs hord.2 fuel (depth - 1) [v] rest (by omega) hrest
        (by simp only [List.length_append]; omega)
    simp only [write, List.cons_append, List.append_assoc]
    rw [parseValue_array num fuel depth (by omega) (write_opens hs hn v _), hfirst,
      Option.bind_some, hnext, List.singleton_append]
  | .object [], _, fuel + 1, depth, rest, hdepth, _, _ => by
    have hd : depth ≠ 0 := by
      simp only [Json.depth, Json.depthFields] at hdepth
      omega
    exact parseValue_empty_object num fuel depth hd rest
  | .object ((k, v) :: fs), hord, fuel + 1, depth, rest, hdepth, hrest, hlen => by
    simp only [Json.ordered, Json.orderedFields, Bool.and_eq_true, decide_eq_true_eq,
      List.map_cons, List.pairwise_cons] at hord
    obtain ⟨⟨hk, hkeys⟩, hv, hfs⟩ := hord
    simp only [Json.depth, Json.depthFields] at hdepth
    have hpos := length_write_pos hs hn v
    simp only [write, List.cons_append, List.length_cons, List.length_append] at hlen
    have hvalue : parseValue num fuel (depth - 1) (write str wnum v ++ (writeMembers str wnum fs ++ rest)) =
        some (v, writeMembers str wnum fs ++ rest) :=
      parseValue_write hs hn v hv fuel (depth - 1) _ (by omega)
        (delimited_writeMembers fs rest) (by simp only [List.length_append]; omega)
    -- every later key is greater than `k`, so the members read so far stay in order
    have hacc : ∀ p ∈ [(k, v)], ∀ q ∈ fs, p.1 < q.1 := by
      intro p hp q hq
      rw [List.mem_singleton.mp hp]
      exact hk q.1 (List.mem_map_of_mem hq)
    have hnext : parseMembers num fuel (depth - 1) [(k, v)] (writeMembers str wnum fs ++ rest) =
        some (.object ([(k, v)] ++ fs), rest) :=
      parseMembers_writeMembers hs hn fs hfs hkeys fuel (depth - 1) [(k, v)] rest hacc
        (by omega) hrest (by simp only [List.length_append]; omega)
    simp only [write, List.cons_append, List.append_assoc]
    rw [parseValue_object num fuel depth (by omega) (opens_key hs k _), parseKey_write hs,
      Option.bind_some, hvalue, Option.bind_some]
    exact hnext

/-- The items after the first read back, each after its comma, up to the closing bracket. -/
theorem parseElements_writeElements (hs : StringWriter str) (hn : NumberWriter num wnum) :
    ∀ (vs : List (Json N)), Json.orderedItems vs = true →
      ∀ (fuel depth : Nat) (acc : List (Json N)) (rest : List Char),
      Json.depthItems vs ≤ depth → Delimited rest →
      (writeElements str wnum vs ++ rest).length < fuel →
      parseElements num fuel depth acc (writeElements str wnum vs ++ rest) =
        some (.array (acc ++ vs), rest)
  | [], _, fuel + 1, depth, acc, rest, _, _, _ => by
    rw [writeElements, List.append_nil]
    exact parseElements_close num fuel depth acc rest
  | v :: vs, hord, fuel + 1, depth, acc, rest, hdepth, hrest, hlen => by
    simp only [Json.orderedItems, Bool.and_eq_true] at hord
    simp only [Json.depthItems] at hdepth
    have hpos := length_write_pos hs hn v
    simp only [writeElements, List.cons_append, List.length_cons, List.length_append] at hlen
    have hfirst : parseValue num fuel depth (write str wnum v ++ (writeElements str wnum vs ++ rest)) =
        some (v, writeElements str wnum vs ++ rest) :=
      parseValue_write hs hn v hord.1 fuel depth _ (by omega)
        (delimited_writeElements vs rest) (by simp only [List.length_append]; omega)
    have hnext : parseElements num fuel depth (acc ++ [v]) (writeElements str wnum vs ++ rest) =
        some (.array (acc ++ [v] ++ vs), rest) :=
      parseElements_writeElements hs hn vs hord.2 fuel depth (acc ++ [v]) rest (by omega) hrest
        (by simp only [List.length_append]; omega)
    simp only [writeElements, List.cons_append, List.append_assoc]
    rw [parseElements_comma, hfirst, Option.bind_some, hnext, List.append_assoc,
      List.singleton_append]

/-- The members after the first read back, each after its comma, up to the closing brace, when
their keys increase past every key read so far. -/
theorem parseMembers_writeMembers (hs : StringWriter str) (hn : NumberWriter num wnum) :
    ∀ (fs : List (String × Json N)), Json.orderedFields fs = true →
      (fs.map (·.1)).Pairwise (· < ·) →
      ∀ (fuel depth : Nat) (acc : List (String × Json N)) (rest : List Char),
      (∀ p ∈ acc, ∀ q ∈ fs, p.1 < q.1) → Json.depthFields fs ≤ depth → Delimited rest →
      (writeMembers str wnum fs ++ rest).length < fuel →
      parseMembers num fuel depth acc (writeMembers str wnum fs ++ rest) =
        some (.object (acc ++ fs), rest)
  | [], _, _, fuel + 1, depth, acc, rest, _, _, _, _ => by
    rw [writeMembers, List.append_nil]
    exact parseMembers_close num fuel depth acc rest
  | (k, v) :: fs, hord, hkeys, fuel + 1, depth, acc, rest, hacc, hdepth, hrest, hlen => by
    simp only [Json.orderedFields, Bool.and_eq_true] at hord
    simp only [List.map_cons, List.pairwise_cons] at hkeys
    simp only [Json.depthFields] at hdepth
    have hpos := length_write_pos hs hn v
    simp only [writeMembers, List.cons_append, List.length_cons, List.length_append] at hlen
    have hvalue : parseValue num fuel depth (write str wnum v ++ (writeMembers str wnum fs ++ rest)) =
        some (v, writeMembers str wnum fs ++ rest) :=
      parseValue_write hs hn v hord.1 fuel depth _ (by omega)
        (delimited_writeMembers fs rest) (by simp only [List.length_append]; omega)
    -- `k` is greater than every key read so far, so inserting it appends it
    have hins : Json.insertField k v acc = acc ++ [(k, v)] :=
      Json.insertField_of_lt fun p hp => hacc p hp (k, v) List.mem_cons_self
    have hacc' : ∀ p ∈ acc ++ [(k, v)], ∀ q ∈ fs, p.1 < q.1 := by
      intro p hp q hq
      rcases List.mem_append.mp hp with hp | hp
      · exact hacc p hp q (List.mem_cons_of_mem _ hq)
      · rw [List.mem_singleton.mp hp]
        exact hkeys.1 q.1 (List.mem_map_of_mem hq)
    have hnext : parseMembers num fuel depth (acc ++ [(k, v)]) (writeMembers str wnum fs ++ rest) =
        some (.object (acc ++ [(k, v)] ++ fs), rest) :=
      parseMembers_writeMembers hs hn fs hord.2 hkeys.2 fuel depth _ rest hacc' (by omega) hrest
        (by simp only [List.length_append]; omega)
    simp only [writeMembers, List.cons_append, List.append_assoc]
    rw [parseMembers_comma, parseKey_write hs, Option.bind_some, hvalue, Option.bind_some, hins,
      hnext, List.append_assoc, List.singleton_append]

end

mutual

/-- **Nesting past the limit is refused**: a written value nested deeper than `depth` does not
read back at all. -/
theorem parseValue_write_of_lt_depth (hs : StringWriter str) (hn : NumberWriter num wnum) :
    ∀ (v : Json N), v.ordered = true → ∀ (fuel depth : Nat) (rest : List Char),
      depth < v.depth → Delimited rest → (write str wnum v ++ rest).length < fuel →
      parseValue num fuel depth (write str wnum v ++ rest) = none
  | .null, _, _, depth, _, hdeep, _, _ => absurd hdeep (Nat.not_lt_zero depth)
  | .bool _, _, _, depth, _, hdeep, _, _ => absurd hdeep (Nat.not_lt_zero depth)
  | .number _, _, _, depth, _, hdeep, _, _ => absurd hdeep (Nat.not_lt_zero depth)
  | .string _, _, _, depth, _, hdeep, _, _ => absurd hdeep (Nat.not_lt_zero depth)
  | .array [], _, fuel + 1, depth, rest, hdeep, _, _ => by
    have hd : depth = 0 := by
      simp only [Json.depth, Json.depthItems] at hdeep
      omega
    subst hd
    exact parseValue_open_of_depth_zero num fuel (Or.inl rfl) _
  | .array (v :: vs), hord, fuel + 1, depth, rest, hdeep, hrest, hlen => by
    simp only [Json.ordered, Json.orderedItems, Bool.and_eq_true] at hord
    simp only [Json.depth, Json.depthItems] at hdeep
    have hpos := length_write_pos hs hn v
    simp only [write, List.cons_append, List.length_cons, List.length_append] at hlen
    simp only [write, List.cons_append, List.append_assoc]
    rcases Nat.eq_zero_or_pos depth with rfl | hd
    · exact parseValue_open_of_depth_zero num fuel (Or.inl rfl) _
    rw [parseValue_array num fuel depth (by omega) (write_opens hs hn v _)]
    -- either the first item is already too deep, or one of the others is
    by_cases hv : v.depth ≤ depth - 1
    · rw [parseValue_write hs hn v hord.1 fuel (depth - 1) _ hv (delimited_writeElements vs rest)
        (by simp only [List.length_append]; omega), Option.bind_some]
      exact parseElements_writeElements_of_lt_depth hs hn vs hord.2 fuel (depth - 1) [v] rest
        (by omega) hrest (by simp only [List.length_append]; omega)
    · rw [parseValue_write_of_lt_depth hs hn v hord.1 fuel (depth - 1) _ (by omega)
        (delimited_writeElements vs rest) (by simp only [List.length_append]; omega),
        Option.bind_none]
  | .object [], _, fuel + 1, depth, rest, hdeep, _, _ => by
    have hd : depth = 0 := by
      simp only [Json.depth, Json.depthFields] at hdeep
      omega
    subst hd
    exact parseValue_open_of_depth_zero num fuel (Or.inr rfl) _
  | .object ((k, v) :: fs), hord, fuel + 1, depth, rest, hdeep, hrest, hlen => by
    simp only [Json.ordered, Json.orderedFields, Bool.and_eq_true] at hord
    simp only [Json.depth, Json.depthFields] at hdeep
    have hpos := length_write_pos hs hn v
    simp only [write, List.cons_append, List.length_cons, List.length_append] at hlen
    simp only [write, List.cons_append, List.append_assoc]
    rcases Nat.eq_zero_or_pos depth with rfl | hd
    · exact parseValue_open_of_depth_zero num fuel (Or.inr rfl) _
    rw [parseValue_object num fuel depth (by omega) (opens_key hs k _), parseKey_write hs,
      Option.bind_some]
    by_cases hv : v.depth ≤ depth - 1
    · rw [parseValue_write hs hn v hord.2.1 fuel (depth - 1) _ hv (delimited_writeMembers fs rest)
        (by simp only [List.length_append]; omega), Option.bind_some]
      exact parseMembers_writeMembers_of_lt_depth hs hn fs hord.2.2 fuel (depth - 1) _ rest
        (by omega) hrest (by simp only [List.length_append]; omega)
    · rw [parseValue_write_of_lt_depth hs hn v hord.2.1 fuel (depth - 1) _ (by omega)
        (delimited_writeMembers fs rest) (by simp only [List.length_append]; omega),
        Option.bind_none]

theorem parseElements_writeElements_of_lt_depth (hs : StringWriter str)
    (hn : NumberWriter num wnum) :
    ∀ (vs : List (Json N)), Json.orderedItems vs = true →
      ∀ (fuel depth : Nat) (acc : List (Json N)) (rest : List Char),
      depth < Json.depthItems vs → Delimited rest →
      (writeElements str wnum vs ++ rest).length < fuel →
      parseElements num fuel depth acc (writeElements str wnum vs ++ rest) = none
  | [], _, _, depth, _, _, hdeep, _, _ => absurd hdeep (Nat.not_lt_zero depth)
  | v :: vs, hord, fuel + 1, depth, acc, rest, hdeep, hrest, hlen => by
    simp only [Json.orderedItems, Bool.and_eq_true] at hord
    simp only [Json.depthItems] at hdeep
    have hpos := length_write_pos hs hn v
    simp only [writeElements, List.cons_append, List.length_cons, List.length_append] at hlen
    simp only [writeElements, List.cons_append, List.append_assoc]
    rw [parseElements_comma]
    by_cases hv : v.depth ≤ depth
    · rw [parseValue_write hs hn v hord.1 fuel depth _ hv (delimited_writeElements vs rest)
        (by simp only [List.length_append]; omega), Option.bind_some]
      exact parseElements_writeElements_of_lt_depth hs hn vs hord.2 fuel depth _ rest
        (by omega) hrest (by simp only [List.length_append]; omega)
    · rw [parseValue_write_of_lt_depth hs hn v hord.1 fuel depth _ (by omega)
        (delimited_writeElements vs rest) (by simp only [List.length_append]; omega),
        Option.bind_none]

theorem parseMembers_writeMembers_of_lt_depth (hs : StringWriter str)
    (hn : NumberWriter num wnum) :
    ∀ (fs : List (String × Json N)), Json.orderedFields fs = true →
      ∀ (fuel depth : Nat) (acc : List (String × Json N)) (rest : List Char),
      depth < Json.depthFields fs → Delimited rest →
      (writeMembers str wnum fs ++ rest).length < fuel →
      parseMembers num fuel depth acc (writeMembers str wnum fs ++ rest) = none
  | [], _, _, depth, _, _, hdeep, _, _ => absurd hdeep (Nat.not_lt_zero depth)
  | (k, v) :: fs, hord, fuel + 1, depth, acc, rest, hdeep, hrest, hlen => by
    simp only [Json.orderedFields, Bool.and_eq_true] at hord
    simp only [Json.depthFields] at hdeep
    have hpos := length_write_pos hs hn v
    simp only [writeMembers, List.cons_append, List.length_cons, List.length_append] at hlen
    simp only [writeMembers, List.cons_append, List.append_assoc]
    rw [parseMembers_comma, parseKey_write hs, Option.bind_some]
    by_cases hv : v.depth ≤ depth
    · rw [parseValue_write hs hn v hord.1 fuel depth _ hv (delimited_writeMembers fs rest)
        (by simp only [List.length_append]; omega), Option.bind_some]
      exact parseMembers_writeMembers_of_lt_depth hs hn fs hord.2 fuel depth _ rest
        (by omega) hrest (by simp only [List.length_append]; omega)
    · rw [parseValue_write_of_lt_depth hs hn v hord.1 fuel depth _ (by omega)
        (delimited_writeMembers fs rest) (by simp only [List.length_append]; omega),
        Option.bind_none]

end

/-- **The text of an ordered value decodes to the value**, when it nests at most `maxDepth`
deep. -/
theorem decode_write (hs : StringWriter str) (hn : NumberWriter num wnum) {v : Json N}
    (hv : v.ordered = true) {maxDepth : Nat} (hd : v.depth ≤ maxDepth) :
    decode num maxDepth (write str wnum v) = some v := by
  have h := parseValue_write hs hn v hv ((write str wnum v).length + 1) maxDepth [] hd trivial
    (by simp)
  rw [List.append_nil] at h
  rw [decode, h]
  rfl

/-- **And it is refused when it nests deeper.** -/
theorem decode_write_of_lt_depth (hs : StringWriter str) (hn : NumberWriter num wnum)
    {v : Json N} (hv : v.ordered = true) {maxDepth : Nat} (hd : maxDepth < v.depth) :
    decode num maxDepth (write str wnum v) = none := by
  have h := parseValue_write_of_lt_depth hs hn v hv ((write str wnum v).length + 1) maxDepth []
    hd trivial (by simp)
  rw [List.append_nil] at h
  rw [decode, h]

end RoundTrip

/-! ## Nesting and the characters written -/

section Characters

variable {str : String → List Char} {wnum : N → List Char}

mutual

/-- Every array or object opens a bracket of its own, so a value nests no deeper than its text
is long. -/
theorem depth_le_length_write : ∀ v : Json N, v.depth ≤ (write str wnum v).length
  | .null | .bool _ | .number _ | .string _ => Nat.zero_le _
  | .array [] => by simp [Json.depth, Json.depthItems, write]
  | .array (v :: vs) => by
    have h₁ : v.depth ≤ (write str wnum v).length := depth_le_length_write v
    have h₂ : Json.depthItems vs ≤ (writeElements str wnum vs).length :=
      depthItems_le_length_writeElements vs
    simp only [Json.depth, Json.depthItems, write, List.length_cons, List.length_append]
    omega
  | .object [] => by simp [Json.depth, Json.depthFields, write]
  | .object ((k, v) :: fs) => by
    have h₁ : v.depth ≤ (write str wnum v).length := depth_le_length_write v
    have h₂ : Json.depthFields fs ≤ (writeMembers str wnum fs).length :=
      depthFields_le_length_writeMembers fs
    simp only [Json.depth, Json.depthFields, write, List.length_cons, List.length_append]
    omega

theorem depthItems_le_length_writeElements :
    ∀ vs : List (Json N), Json.depthItems vs ≤ (writeElements str wnum vs).length
  | [] => Nat.zero_le _
  | v :: vs => by
    have h₁ : v.depth ≤ (write str wnum v).length := depth_le_length_write v
    have h₂ : Json.depthItems vs ≤ (writeElements str wnum vs).length :=
      depthItems_le_length_writeElements vs
    simp only [Json.depthItems, writeElements, List.length_cons, List.length_append]
    omega

theorem depthFields_le_length_writeMembers :
    ∀ fs : List (String × Json N), Json.depthFields fs ≤ (writeMembers str wnum fs).length
  | [] => Nat.zero_le _
  | (k, v) :: fs => by
    have h₁ : v.depth ≤ (write str wnum v).length := depth_le_length_write v
    have h₂ : Json.depthFields fs ≤ (writeMembers str wnum fs).length :=
      depthFields_le_length_writeMembers fs
    simp only [Json.depthFields, writeMembers, List.length_cons, List.length_append]
    omega

end

/-- With no limit on nesting, the text of every ordered value decodes to the value. -/
theorem decodeUnbounded_write {num : Bool → Nat → Option N} (hs : StringWriter str)
    (hn : NumberWriter num wnum) {v : Json N} (hv : v.ordered = true) :
    decodeUnbounded num (write str wnum v) = some v :=
  decode_write hs hn hv (depth_le_length_write v)

/-- The characters compact text is built of, besides what the string and number writers put
in. -/
def punctuation : List Char :=
  ['n', 'u', 'l', 't', 'r', 'e', 'f', 'a', 's', '[', ']', '{', '}', ',', ':']

variable {P : Char → Prop}

/-- A constant text of punctuation. -/
lemma forall_mem_of_punctuation (hp : ∀ c ∈ punctuation, P c) {cs : List Char}
    (hcs : ∀ x ∈ cs, x ∈ punctuation) : ∀ c ∈ cs, P c :=
  fun c hc => hp c (hcs c hc)

mutual

/-- **A property of every character written**: it holds of the text when it holds of the
punctuation and of everything the two writers put in. -/
theorem forall_mem_write (hp : ∀ c ∈ punctuation, P c) (hstr : ∀ s, ∀ c ∈ str s, P c)
    (hnum : ∀ n, ∀ c ∈ wnum n, P c) : ∀ v : Json N, ∀ c ∈ write str wnum v, P c
  | .null => forall_mem_of_punctuation hp (by simp [write, punctuation])
  | .bool true => forall_mem_of_punctuation hp (by simp [write, punctuation])
  | .bool false => forall_mem_of_punctuation hp (by simp [write, punctuation])
  | .number n => hnum n
  | .string s => hstr s
  | .array [] => forall_mem_of_punctuation hp (by simp [write, punctuation])
  | .array (v :: vs) => by
    intro c hc
    simp only [write, List.mem_cons, List.mem_append] at hc
    rcases hc with (rfl | hc) | hc
    · exact hp _ (by simp [punctuation])
    · exact forall_mem_write hp hstr hnum v c hc
    · exact forall_mem_writeElements hp hstr hnum vs c hc
  | .object [] => forall_mem_of_punctuation hp (by simp [write, punctuation])
  | .object ((k, v) :: fs) => by
    intro c hc
    simp only [write, List.mem_cons, List.mem_append] at hc
    rcases hc with ((rfl | hc) | rfl | hc) | hc
    · exact hp _ (by simp [punctuation])
    · exact hstr k c hc
    · exact hp _ (by simp [punctuation])
    · exact forall_mem_write hp hstr hnum v c hc
    · exact forall_mem_writeMembers hp hstr hnum fs c hc

theorem forall_mem_writeElements (hp : ∀ c ∈ punctuation, P c) (hstr : ∀ s, ∀ c ∈ str s, P c)
    (hnum : ∀ n, ∀ c ∈ wnum n, P c) : ∀ vs : List (Json N), ∀ c ∈ writeElements str wnum vs, P c
  | [] => forall_mem_of_punctuation hp (by simp [writeElements, punctuation])
  | v :: vs => by
    intro c hc
    simp only [writeElements, List.mem_cons, List.mem_append] at hc
    rcases hc with (rfl | hc) | hc
    · exact hp _ (by simp [punctuation])
    · exact forall_mem_write hp hstr hnum v c hc
    · exact forall_mem_writeElements hp hstr hnum vs c hc

theorem forall_mem_writeMembers (hp : ∀ c ∈ punctuation, P c) (hstr : ∀ s, ∀ c ∈ str s, P c)
    (hnum : ∀ n, ∀ c ∈ wnum n, P c) :
    ∀ fs : List (String × Json N), ∀ c ∈ writeMembers str wnum fs, P c
  | [] => forall_mem_of_punctuation hp (by simp [writeMembers, punctuation])
  | (k, v) :: fs => by
    intro c hc
    simp only [writeMembers, List.mem_cons, List.mem_append] at hc
    rcases hc with ((rfl | hc) | rfl | hc) | hc
    · exact hp _ (by simp [punctuation])
    · exact hstr k c hc
    · exact hp _ (by simp [punctuation])
    · exact forall_mem_write hp hstr hnum v c hc
    · exact forall_mem_writeMembers hp hstr hnum fs c hc

end

end Characters


end JsonText

end Ryeos
