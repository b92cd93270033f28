import Ryeos.Core.JsonText

/-!
# The canonical JSON of the CAS

`lillux::cas::canonical_json` (src/crates/kernel/lillux/src/cas.rs) writes the one byte encoding
a CAS object has: object keys sorted, no whitespace, every character outside ASCII escaped.

* `Number` is a `serde_json::Number` that holds an integer: a `u64`, or a negative `i64`.
  Floating point numbers are left out.  `Number.ofLiteral` is how `serde_json` stores an integer
  literal it reads.
* `Value` is `serde_json::Value` over such numbers.  Its objects are `BTreeMap`s, so every object
  keeps its keys in strictly increasing order (`Json.ordered`).
* `escapeChar`, `writeString`, `writeNumber`, `writeCanonicalJson` and `canonicalJson` are the
  encoder, function by function.
* `serde_json::from_slice` into a `Value` is a parameter of the store: `FromSliceDecodes` says
  what the store takes it to do on UTF-8 bytes, read one RFC 8259 text (`JsonText.decode`)
  nested at most 127 arrays and objects deep, `serde_json`'s default recursion limit;
  `decodeSlice` is one reader that does so.

The results: the canonical text of any tree is the compact text of the tree with every object's
members sorted by key (`writeCanonicalJson_eq_write`); it is ASCII (`canonical_ascii`); the
string and number writers read back (`writeString_reads`, `writeNumber_reads`).  So the canonical
text of a `Value` decodes to the value (`decodeUnbounded_canonical`), and `from_slice` gives it
back exactly when it nests fewer than 128 deep (`fromSlice_canonical`).
-/

namespace Ryeos

namespace Lillux

/-! ## Numbers -/

/-- A `serde_json::Number` that holds an integer: a `u64` (`PosInt`) or a negative `i64`
(`NegInt`).  `serde_json` keeps a non-negative integer as `PosInt`, so two numbers are equal
exactly when their values are. -/
@[ext] structure Number where
  val : Int
  ge_min : -2 ^ 63 ≤ val
  lt_max : val < 2 ^ 64

instance : DecidableEq Number := fun a b =>
  decidable_of_iff (a.val = b.val) ⟨Number.ext, congrArg Number.val⟩

/-- How `serde_json` stores an integer literal it reads: a `u64` when the magnitude fits, a
negative `i64` when the negated magnitude fits; otherwise, and for `-0`, an `f64`, for which this
number type has no room. -/
def Number.ofLiteral : Bool → Nat → Option Number
  | false, m => if h : m < 2 ^ 64 then some ⟨m, by omega, by omega⟩ else none
  | true, m => if h : 0 < m ∧ m ≤ 2 ^ 63 then some ⟨-m, by omega, by omega⟩ else none

/-- `write_number`: `Number::to_string`, the decimal digits with a minus sign in front of a
negative number. -/
def writeNumber (n : Number) : List Char :=
  (toString n.val).toList

lemma writeNumber_eq (n : Number) :
    writeNumber n = if 0 ≤ n.val then Nat.toDigits 10 n.val.toNat
      else '-' :: Nat.toDigits 10 (-n.val).toNat := by
  rw [writeNumber, Int.toString_eq_repr, Int.repr_eq_if]
  split <;> simp [String.toList_append]

/-- **Numbers read back**: the digits `writeNumber` writes are stored by `serde_json` as the
same number. -/
theorem writeNumber_reads : JsonText.NumberWriter Number.ofLiteral writeNumber := by
  constructor
  intro n
  have hlo := n.ge_min
  have hhi := n.lt_max
  rw [writeNumber_eq]
  split
  · -- a `u64`: its digits, and `serde_json` keeps it as `PosInt`
    next hpos =>
    obtain ⟨d, ds, hds⟩ : ∃ d ds, Nat.toDigits 10 n.val.toNat = d :: ds := by
      cases h : Nat.toDigits 10 n.val.toNat with
      | nil => exact absurd h Nat.toDigits_ne_nil
      | cons d ds => exact ⟨d, ds, rfl⟩
    have hd : d.isDigit = true :=
      JsonText.isDigit_of_mem_toDigits (by rw [hds]; exact List.mem_cons_self)
    refine ⟨d, ds, hds, Or.inr hd, fun rest hrest => ?_⟩
    rw [JsonText.parseNumber_toDigits Number.ofLiteral _ hrest, Number.ofLiteral,
      dif_pos (by omega)]
    simp only [Option.map_some, Option.some.injEq, Prod.mk.injEq, and_true]
    congr 1
    ext
    simp only
    omega
  · -- a negative `i64`: a minus sign, then the digits of its magnitude
    next hneg =>
    refine ⟨'-', _, rfl, Or.inl rfl, fun rest hrest => ?_⟩
    rw [List.cons_append, JsonText.parseNumber_neg_toDigits Number.ofLiteral _ hrest,
      Number.ofLiteral, dif_pos (by omega)]
    simp only [Option.map_some, Option.some.injEq, Prod.mk.injEq, and_true]
    congr 1
    ext
    simp only
    omega

/-! ## Strings -/

lemma toNat_lt_of_lt {c d : Char} (h : c < d) : c.toNat < d.toNat :=
  UInt32.lt_iff_toNat_lt.mp h

lemma toNat_le_of_not_lt {c d : Char} (h : ¬ c < d) : d.toNat ≤ c.toNat :=
  Nat.le_of_not_lt fun h' => h (UInt32.lt_iff_toNat_lt.mpr h')

/-- A character is a Unicode scalar value: below the surrogates, or above them and below
`0x110000`. -/
lemma toNat_valid (c : Char) : c.toNat < 0xD800 ∨ (0xDFFF < c.toNat ∧ c.toNat < 0x110000) :=
  c.valid

lemma shiftRight_ten (s : Nat) : s >>> 10 = s / 0x400 := by
  simpa using Nat.shiftRight_eq_div_pow s 10

lemma and_low_ten (s : Nat) : s &&& 0x3FF = s % 0x400 := by
  simpa using Nat.and_two_pow_sub_one_eq_mod s 10

/-- `write!(out, "\\u{:04x}", n)`: a `\u` escape of four lowercase hex digits. -/
def unicodeEscape (n : Nat) : List Char :=
  '\\' :: 'u' :: Hex.format 4 n

lemma unicodeEscape_eq {n : Nat} (hn : n < 0x10000) : unicodeEscape n = '\\' :: 'u' :: Hex.fixed 4 n := by
  rw [unicodeEscape, Hex.format_eq_fixed (by decide) hn]

/-- **`write_string`'s escape of one character**: the two-character escapes, `\u00xx` for the
other control characters, ASCII as itself, a `\u` escape for the rest of the basic plane and a
surrogate pair of them above it. -/
def escapeChar (c : Char) : List Char :=
  if c = '"' then ['\\', '"']
  else if c = '\\' then ['\\', '\\']
  else if c = '\x08' then ['\\', 'b']
  else if c = '\x0C' then ['\\', 'f']
  else if c = '\n' then ['\\', 'n']
  else if c = '\r' then ['\\', 'r']
  else if c = '\t' then ['\\', 't']
  else if c < '\x20' then unicodeEscape c.toNat
  else if c.toNat < 0x80 then [c]
  else if c.toNat ≤ 0xFFFF then unicodeEscape c.toNat
  else
    let scalar := c.toNat - 0x10000
    unicodeEscape (0xD800 + (scalar >>> 10)) ++ unicodeEscape (0xDC00 + (scalar &&& 0x3FF))

/-- `write_string`: the string between quotes, each character escaped. -/
def writeString (s : String) : List Char :=
  '"' :: s.toList.flatMap escapeChar ++ ['"']

/-- **Each escape reads back as the character it escapes.** -/
lemma parseChars_escapeChar (c : Char) (rest : List Char) :
    JsonText.parseChars (escapeChar c ++ rest) = JsonText.consChar c (JsonText.parseChars rest) := by
  have hvalid := toNat_valid c
  unfold escapeChar
  split_ifs with h₁ h₂ h₃ h₄ h₅ h₆ h₇ h₈ h₉ h₁₀
  · subst h₁
    exact JsonText.parseChars_escape (by decide) rfl rest
  · subst h₂
    exact JsonText.parseChars_escape (by decide) rfl rest
  · subst h₃
    exact JsonText.parseChars_escape (by decide) rfl rest
  · subst h₄
    exact JsonText.parseChars_escape (by decide) rfl rest
  · subst h₅
    exact JsonText.parseChars_escape (by decide) rfl rest
  · subst h₆
    exact JsonText.parseChars_escape (by decide) rfl rest
  · subst h₇
    exact JsonText.parseChars_escape (by decide) rfl rest
  · -- another control character, as `\u00xx`
    have hlt : c.toNat < 0x20 := toNat_lt_of_lt h₈
    rw [unicodeEscape_eq (by omega), List.cons_append, List.cons_append,
      JsonText.parseChars_unicode (by omega) (by omega), Char.ofNat_toNat]
  · -- printable ASCII stands for itself
    have hge : 0x20 ≤ c.toNat := toNat_le_of_not_lt h₈
    exact JsonText.parseChars_plain h₁ h₂ hge rest
  · -- the rest of the basic plane, as one `\u` escape: no character is a surrogate
    rw [unicodeEscape_eq (by omega), List.cons_append, List.cons_append,
      JsonText.parseChars_unicode (by omega) (by omega), Char.ofNat_toNat]
  · -- above the basic plane: the high and low surrogates of `c.toNat - 0x10000`
    dsimp only
    have hcombine : JsonText.combineSurrogates (0xD800 + (c.toNat - 0x10000) / 0x400)
        (0xDC00 + (c.toNat - 0x10000) % 0x400) = c.toNat := by
      unfold JsonText.combineSurrogates
      omega
    rw [shiftRight_ten, and_low_ten, unicodeEscape_eq (by omega), unicodeEscape_eq (by omega),
      List.append_assoc, List.cons_append,
      List.cons_append, List.cons_append, List.cons_append,
      JsonText.parseChars_surrogates (by omega) (by omega), hcombine, Char.ofNat_toNat]

/-- The escaped characters of a string, then the closing quote, read back as the string. -/
lemma parseChars_flatMap_escapeChar (rest : List Char) :
    ∀ cs : List Char, JsonText.parseChars (cs.flatMap escapeChar ++ '"' :: rest) = some (cs, rest)
  | [] => JsonText.parseChars_quote rest
  | c :: cs => by
    rw [List.flatMap_cons, List.append_assoc, parseChars_escapeChar,
      parseChars_flatMap_escapeChar rest cs, JsonText.consChar_some]

/-- **Strings read back.** -/
theorem writeString_reads : JsonText.StringWriter writeString := by
  constructor
  intro s
  refine ⟨s.toList.flatMap escapeChar ++ ['"'], rfl, fun rest => ?_⟩
  rw [List.append_assoc, List.singleton_append]
  exact parseChars_flatMap_escapeChar rest s.toList

/-! ## Values -/

/-- `keys.sort()`: the members in byte order of their keys.  For UTF-8 text, byte order is the
order of the characters' scalar values, which is the order of `String`. -/
def sortMembers (members : List (String × List Char)) : List (String × List Char) :=
  members.mergeSort fun a b => decide (a.1 ≤ b.1)

/-- The members of an object in the order given, each after a comma but the first, as `key:value`
with the key written by `write_string`. -/
def writeMembers : Nat → List (String × List Char) → List Char
  | _, [] => []
  | index, (key, text) :: rest =>
    (if index ≠ 0 then [','] else []) ++ writeString key ++ ':' :: text ++
      writeMembers (index + 1) rest

mutual

/-- **`write_canonical_json`.**  An object's members are written in byte order of their keys; a
member's value is written before the sort and looked up by key in the source, the same text. -/
def writeCanonicalJson : Json Number → List Char
  | .null => ['n', 'u', 'l', 'l']
  | .bool true => ['t', 'r', 'u', 'e']
  | .bool false => ['f', 'a', 'l', 's', 'e']
  | .number n => writeNumber n
  | .string s => writeString s
  | .object fields => '{' :: writeMembers 0 (sortMembers (encodeMembers fields)) ++ ['}']
  | .array items => '[' :: writeItems 0 items ++ [']']

/-- The items of an array, each after a comma but the first. -/
def writeItems : Nat → List (Json Number) → List Char
  | _, [] => []
  | index, v :: vs =>
    (if index ≠ 0 then [','] else []) ++ writeCanonicalJson v ++ writeItems (index + 1) vs

/-- Each member's key with its value's canonical text. -/
def encodeMembers : List (String × Json Number) → List (String × List Char)
  | [] => []
  | (k, v) :: fs => (k, writeCanonicalJson v) :: encodeMembers fs

end

/-- `CanonicalJsonError`: the encoding failed.  No value of the modelled domain raises it. -/
structure CanonicalJsonError where
  deriving DecidableEq, Repr

/-- **`canonical_json`**: the canonical text of a value. -/
def canonicalJson (v : Json Number) : Except CanonicalJsonError String :=
  .ok (String.ofList (writeCanonicalJson v))

/-- `serde_json::Value` over integer numbers.  Its objects are `BTreeMap`s: every object keeps its
keys in strictly increasing order. -/
@[ext] structure Value where
  json : Json Number
  ordered : json.ordered = true

/-- The default recursion limit of `serde_json`'s reader. -/
def recursionLimit : Nat := 128

/-- What the store takes **`serde_json::from_slice`** into a `Value` to do on UTF-8 bytes: read
one RFC 8259 text (`JsonText.decode`), each integer literal stored as `Number.ofLiteral`, under
the default recursion limit.  The reader counts the limit down on entering each array or object
and refuses the one that brings it to zero, so at most `recursionLimit - 1` of them nest. -/
def FromSliceDecodes (fromSlice : ByteArray → Option (Json Number)) : Prop :=
  ∀ cs : List Char, fromSlice (String.ofList cs).toByteArray =
    JsonText.decode Number.ofLiteral (recursionLimit - 1) cs

/-- A reader that does so: the bytes as UTF-8, then one JSON text. -/
def decodeSlice (data : ByteArray) : Option (Json Number) :=
  data.utf8Decode?.bind fun chars => JsonText.decode Number.ofLiteral (recursionLimit - 1) chars.toList

/-! ## The canonical text is the compact text with keys sorted -/

/-- A member with its value written as compact text. -/
def writeMember (p : String × Json Number) : String × List Char :=
  (p.1, JsonText.write writeString writeNumber p.2)

lemma writeMembers_succ (i : Nat) :
    ∀ fields : List (String × Json Number),
      writeMembers (i + 1) (fields.map writeMember) ++ ['}'] =
        JsonText.writeMembers writeString writeNumber fields
  | [] => rfl
  | (k, v) :: fs => by
    rw [List.map_cons, writeMembers, if_pos (Nat.succ_ne_zero i), JsonText.writeMembers,
      ← writeMembers_succ (i + 1) fs]
    simp [writeMember]

/-- An object whose members are written in the order given. -/
lemma writeObject_eq (fields : List (String × Json Number)) :
    '{' :: writeMembers 0 (fields.map writeMember) ++ ['}'] =
      JsonText.write writeString writeNumber (.object fields) := by
  cases fields with
  | nil => rfl
  | cons p fs =>
    obtain ⟨k, v⟩ := p
    rw [List.map_cons, writeMembers, if_neg (by decide), List.nil_append, JsonText.write,
      ← writeMembers_succ 0 fs]
    simp [writeMember]

/-- Writing each member and then sorting is sorting and then writing: the sort reads keys only. -/
lemma sortMembers_map (fields : List (String × Json Number)) :
    sortMembers (fields.map writeMember) =
      (fields.mergeSort fun a b => decide (a.1 ≤ b.1)).map writeMember :=
  (@List.map_mergeSort _ _ (fun a b : String × Json Number => decide (a.1 ≤ b.1))
    (fun a b : String × List Char => decide (a.1 ≤ b.1)) writeMember fields
    fun _ _ _ _ => rfl).symm

mutual

/-- **The canonical text of any tree is its compact text with every object's members sorted by
key.** -/
theorem writeCanonicalJson_eq_write :
    ∀ v : Json Number, writeCanonicalJson v = JsonText.write writeString writeNumber v.sortKeys
  | .null | .bool true | .bool false | .number _ | .string _ => rfl
  | .array [] => rfl
  | .array (v :: vs) => by
    rw [writeCanonicalJson, Json.sortKeys, Json.sortKeysItems, JsonText.write, writeItems,
      if_neg (by decide), List.nil_append, writeCanonicalJson_eq_write v, ← writeItems_succ 0 vs]
    simp
  | .object fields => by
    rw [writeCanonicalJson, Json.sortKeys, encodeMembers_eq fields, sortMembers_map]
    exact writeObject_eq _

theorem writeItems_succ (i : Nat) :
    ∀ items : List (Json Number),
      writeItems (i + 1) items ++ [']'] =
        JsonText.writeElements writeString writeNumber (Json.sortKeysItems items)
  | [] => rfl
  | v :: vs => by
    rw [writeItems, if_pos (Nat.succ_ne_zero i), Json.sortKeysItems, JsonText.writeElements,
      writeCanonicalJson_eq_write v, ← writeItems_succ (i + 1) vs]
    simp

theorem encodeMembers_eq :
    ∀ fields : List (String × Json Number),
      encodeMembers fields = (Json.sortKeysFields fields).map writeMember
  | [] => rfl
  | (k, v) :: fs => by
    rw [encodeMembers, Json.sortKeysFields, List.map_cons, writeCanonicalJson_eq_write v,
      encodeMembers_eq fs]
    rfl

end

/-- A value whose objects are already sorted is written as its compact text. -/
lemma writeCanonicalJson_of_ordered {v : Json Number} (hv : v.ordered = true) :
    writeCanonicalJson v = JsonText.write writeString writeNumber v := by
  rw [writeCanonicalJson_eq_write, Json.sortKeys_of_ordered v hv]

/-! ## ASCII -/

lemma digitChar_ascii : ∀ d, d < 16 → (Nat.digitChar d).toNat < 0x80 := by
  decide

lemma unicodeEscape_ascii {n : Nat} (hn : n < 0x10000) : ∀ x ∈ unicodeEscape n, x.toNat < 0x80 := by
  intro x hx
  rw [unicodeEscape_eq hn, List.mem_cons, List.mem_cons] at hx
  rcases hx with rfl | rfl | hx
  · decide
  · decide
  · obtain ⟨d, hd, rfl⟩ := Hex.mem_fixed hx
    exact digitChar_ascii d hd

/-- Every escape is ASCII. -/
lemma escapeChar_ascii (c : Char) : ∀ x ∈ escapeChar c, x.toNat < 0x80 := by
  have hvalid := toNat_valid c
  unfold escapeChar
  split_ifs with h₁ h₂ h₃ h₄ h₅ h₆ h₇ h₈ h₉ h₁₀
  -- the seven two-character escapes
  any_goals (simp; done)
  · have hlt : c.toNat < 0x20 := toNat_lt_of_lt h₈
    exact unicodeEscape_ascii (by omega)
  · -- ASCII as itself
    intro x hx
    rw [List.mem_singleton.mp hx]
    exact h₉
  · exact unicodeEscape_ascii (by omega)
  · -- a surrogate pair
    dsimp only
    rw [shiftRight_ten, and_low_ten]
    exact List.forall_mem_append.mpr ⟨unicodeEscape_ascii (by omega), unicodeEscape_ascii (by omega)⟩

lemma writeString_ascii (s : String) : ∀ x ∈ writeString s, x.toNat < 0x80 := by
  intro x hx
  simp only [writeString, List.cons_append, List.mem_cons, List.mem_append, List.mem_flatMap,
    List.not_mem_nil, or_false] at hx
  rcases hx with rfl | ⟨c, -, hc⟩ | rfl
  · decide
  · exact escapeChar_ascii c x hc
  · decide

lemma writeNumber_ascii (n : Number) : ∀ x ∈ writeNumber n, x.toNat < 0x80 := by
  intro x hx
  have hdigit : ∀ m, ∀ y ∈ Nat.toDigits 10 m, y.toNat < 0x80 := fun m y hy => by
    have := (Char.isDigit_iff_toNat.mp (JsonText.isDigit_of_mem_toDigits hy)).2
    have h9 : '9'.toNat = 57 := rfl
    omega
  rw [writeNumber_eq] at hx
  split at hx
  · exact hdigit _ x hx
  · rcases List.mem_cons.mp hx with rfl | hx
    · decide
    · exact hdigit _ x hx

/-- **The canonical text is ASCII.** -/
theorem canonical_ascii (v : Json Number) : ∀ x ∈ writeCanonicalJson v, x.toNat < 0x80 := by
  rw [writeCanonicalJson_eq_write]
  exact JsonText.forall_mem_write (by simp [JsonText.punctuation]) writeString_ascii
    writeNumber_ascii _

/-! ## Reading the canonical text back -/

/-- **The canonical text of a value decodes to the value**, under RFC 8259 with no limit on
nesting. -/
theorem decodeUnbounded_canonical (v : Value) :
    JsonText.decodeUnbounded Number.ofLiteral (writeCanonicalJson v.json) = some v.json := by
  rw [writeCanonicalJson_of_ordered v.ordered]
  exact JsonText.decodeUnbounded_write writeString_reads writeNumber_reads v.ordered

lemma fromSliceDecodes_decodeSlice : FromSliceDecodes decodeSlice := fun cs => by
  simp [decodeSlice]

/-- **`from_slice` gives a value back from its canonical bytes exactly when it nests fewer than
`recursionLimit` arrays and objects deep.** -/
theorem fromSlice_canonical {fromSlice : ByteArray → Option (Json Number)}
    (hdecode : FromSliceDecodes fromSlice) (v : Value) :
    fromSlice (String.ofList (writeCanonicalJson v.json)).toByteArray =
      if v.json.depth < recursionLimit then some v.json else none := by
  have hlimit : recursionLimit = 128 := rfl
  rw [hdecode, writeCanonicalJson_of_ordered v.ordered]
  split
  · next hd =>
    exact JsonText.decode_write writeString_reads writeNumber_reads v.ordered (by omega)
  · next hd =>
    exact JsonText.decode_write_of_lt_depth writeString_reads writeNumber_reads v.ordered
      (by omega)

/-- **Two values with the same canonical text are the same value.** -/
theorem writeCanonicalJson_injective {v w : Value}
    (h : writeCanonicalJson v.json = writeCanonicalJson w.json) : v = w := by
  have hv := decodeUnbounded_canonical v
  rw [h, decodeUnbounded_canonical w, Option.some.injEq] at hv
  exact Value.ext hv.symm

end Lillux

end Ryeos
