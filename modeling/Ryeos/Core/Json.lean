import Mathlib

/-!
# JSON values

The value type of a JSON library whose objects are maps kept in key order: `null`, booleans,
numbers of some number type `N`, strings, arrays and objects.  An object is its list of
members, and the operations below keep that list in strictly increasing key order when it
starts so, as an ordered map does.  `Json.get` is the map lookup; `Json.asArray`, `Json.asStr`
and `Json.asObject` are the accessors that answer `none` on a value of another kind.
`Json.ordered` says that every object in a value keeps that order, as a value whose objects are
ordered maps always does, and `Json.depth` counts how many arrays and objects nest in it.

Nothing here names a program: the number type is a parameter, and the repository chooses it.
-/

namespace Ryeos

/-- A JSON value over the number type `N`. -/
inductive Json (N : Type) where
  | null
  | bool (b : Bool)
  | number (n : N)
  | string (s : String)
  | array (items : List (Json N))
  | object (fields : List (String × Json N))
  deriving Repr

namespace Json

variable {N : Type}

mutual

/-- Decidable equality of values, by structural recursion through arrays and objects. -/
def decEq [DecidableEq N] : (a b : Json N) → Decidable (a = b)
  | null, null => isTrue rfl
  | bool a, bool b =>
    if h : a = b then isTrue (h ▸ rfl) else isFalse fun e => by cases e; exact h rfl
  | number a, number b =>
    if h : a = b then isTrue (h ▸ rfl) else isFalse fun e => by cases e; exact h rfl
  | string a, string b =>
    if h : a = b then isTrue (h ▸ rfl) else isFalse fun e => by cases e; exact h rfl
  | array as, array bs =>
    match decEqItems as bs with
    | isTrue h => isTrue (h ▸ rfl)
    | isFalse h => isFalse fun e => by cases e; exact h rfl
  | object as, object bs =>
    match decEqFields as bs with
    | isTrue h => isTrue (h ▸ rfl)
    | isFalse h => isFalse fun e => by cases e; exact h rfl
  | null, bool _ | null, number _ | null, string _ | null, array _ | null, object _
  | bool _, null | bool _, number _ | bool _, string _ | bool _, array _ | bool _, object _
  | number _, null | number _, bool _ | number _, string _ | number _, array _
  | number _, object _ | string _, null | string _, bool _ | string _, number _
  | string _, array _ | string _, object _ | array _, null | array _, bool _
  | array _, number _ | array _, string _ | array _, object _ | object _, null
  | object _, bool _ | object _, number _ | object _, string _ | object _, array _ =>
    isFalse fun e => by cases e

/-- Decidable equality of item lists. -/
def decEqItems [DecidableEq N] : (as bs : List (Json N)) → Decidable (as = bs)
  | [], [] => isTrue rfl
  | [], _ :: _ => isFalse fun e => by cases e
  | _ :: _, [] => isFalse fun e => by cases e
  | a :: as, b :: bs =>
    match decEq a b, decEqItems as bs with
    | isTrue h₁, isTrue h₂ => isTrue (h₁ ▸ h₂ ▸ rfl)
    | isFalse h₁, _ => isFalse fun e => by cases e; exact h₁ rfl
    | _, isFalse h₂ => isFalse fun e => by cases e; exact h₂ rfl

/-- Decidable equality of member lists. -/
def decEqFields [DecidableEq N] : (as bs : List (String × Json N)) → Decidable (as = bs)
  | [], [] => isTrue rfl
  | [], _ :: _ => isFalse fun e => by cases e
  | _ :: _, [] => isFalse fun e => by cases e
  | (k, a) :: as, (l, b) :: bs =>
    if hk : k = l then
      match decEq a b, decEqFields as bs with
      | isTrue h₁, isTrue h₂ => isTrue (hk ▸ h₁ ▸ h₂ ▸ rfl)
      | isFalse h₁, _ => isFalse fun e => by cases e; exact h₁ rfl
      | _, isFalse h₂ => isFalse fun e => by cases e; exact h₂ rfl
    else isFalse fun e => by cases e; exact hk rfl

end

instance [DecidableEq N] : DecidableEq (Json N) := decEq

/-- `true` exactly on `null`. -/
def isNull : Json N → Bool
  | null => true
  | _ => false

/-- The members of an object, or `none`. -/
def asObject : Json N → Option (List (String × Json N))
  | object fields => some fields
  | _ => none

/-- The items of an array, or `none`. -/
def asArray : Json N → Option (List (Json N))
  | array items => some items
  | _ => none

/-- The text of a string, or `none`. -/
def asStr : Json N → Option String
  | string s => some s
  | _ => none

/-- Map lookup: the member under `key` of an object, `none` on a missing key and on a value of
another kind. -/
def get (key : String) : Json N → Option (Json N)
  | object fields => (fields.find? (·.1 = key)).map (·.2)
  | _ => none

/-- Insert a member into a key-ordered member list, replacing a member with the same key. -/
def insertField (key : String) (value : Json N) : List (String × Json N) → List (String × Json N)
  | [] => [(key, value)]
  | (k, v) :: rest =>
    if key = k then (key, value) :: rest
    else if key < k then (key, value) :: (k, v) :: rest
    else (k, v) :: insertField key value rest

/-- Inserting a key greater than every key present appends the member. -/
lemma insertField_of_lt {key : String} {value : Json N} :
    ∀ {fields : List (String × Json N)}, (∀ p ∈ fields, p.1 < key) →
      insertField key value fields = fields ++ [(key, value)]
  | [], _ => rfl
  | (k, v) :: rest, h => by
    have hk : k < key := h (k, v) List.mem_cons_self
    have hrest : ∀ p ∈ rest, p.1 < key := fun p hp => h p (List.mem_cons_of_mem _ hp)
    rw [insertField, if_neg (ne_of_gt hk), if_neg (not_lt_of_gt hk), insertField_of_lt hrest]
    rfl

mutual

/-- Every object in the value lists its members in strictly increasing key order. -/
def ordered : Json N → Bool
  | array items => orderedItems items
  | object fields => decide ((fields.map (·.1)).Pairwise (· < ·)) && orderedFields fields
  | _ => true

/-- Every item is `ordered`. -/
def orderedItems : List (Json N) → Bool
  | [] => true
  | v :: vs => ordered v && orderedItems vs

/-- Every member's value is `ordered`. -/
def orderedFields : List (String × Json N) → Bool
  | [] => true
  | (_, v) :: fs => ordered v && orderedFields fs

end

mutual

/-- How many arrays and objects nest in the value, the value itself included. -/
def depth : Json N → Nat
  | array items => depthItems items + 1
  | object fields => depthFields fields + 1
  | _ => 0

/-- The greatest `depth` among the items. -/
def depthItems : List (Json N) → Nat
  | [] => 0
  | v :: vs => max (depth v) (depthItems vs)

/-- The greatest `depth` among the members' values. -/
def depthFields : List (String × Json N) → Nat
  | [] => 0
  | (_, v) :: fs => max (depth v) (depthFields fs)

end

mutual

/-- Every object's members sorted by key, all the way down (a stable sort, as sorting the keys
of a map is). -/
def sortKeys : Json N → Json N
  | array items => array (sortKeysItems items)
  | object fields => object ((sortKeysFields fields).mergeSort fun a b => decide (a.1 ≤ b.1))
  | v => v

/-- `sortKeys` on every item. -/
def sortKeysItems : List (Json N) → List (Json N)
  | [] => []
  | v :: vs => sortKeys v :: sortKeysItems vs

/-- `sortKeys` on every member's value. -/
def sortKeysFields : List (String × Json N) → List (String × Json N)
  | [] => []
  | (k, v) :: fs => (k, sortKeys v) :: sortKeysFields fs

end

mutual

/-- **Sorting changes nothing in an ordered value.** -/
theorem sortKeys_of_ordered : ∀ v : Json N, v.ordered = true → v.sortKeys = v
  | null, _ | bool _, _ | number _, _ | string _, _ => rfl
  | array items, h => by
    rw [sortKeys, sortKeysItems_of_ordered items h]
  | object fields, h => by
    simp only [ordered, Bool.and_eq_true, decide_eq_true_eq] at h
    rw [sortKeys, sortKeysFields_of_ordered fields h.2, List.mergeSort_of_pairwise]
    -- keys in strictly increasing order are in particular in non-decreasing order
    rw [List.pairwise_map] at h
    exact h.1.imp fun hlt => decide_eq_true (le_of_lt hlt)

theorem sortKeysItems_of_ordered :
    ∀ items : List (Json N), orderedItems items = true → sortKeysItems items = items
  | [], _ => rfl
  | v :: vs, h => by
    simp only [orderedItems, Bool.and_eq_true] at h
    rw [sortKeysItems, sortKeys_of_ordered v h.1, sortKeysItems_of_ordered vs h.2]

theorem sortKeysFields_of_ordered :
    ∀ fields : List (String × Json N), orderedFields fields = true → sortKeysFields fields = fields
  | [], _ => rfl
  | (k, v) :: fs, h => by
    simp only [orderedFields, Bool.and_eq_true] at h
    rw [sortKeysFields, sortKeys_of_ordered v h.1, sortKeysFields_of_ordered fs h.2]

end

/-- Reordering a list keeps its size, so a walk may recurse into a sorted copy of an object's
members. -/
lemma sizeOf_perm {α : Type} [SizeOf α] {l l' : List α} (h : l.Perm l') :
    sizeOf l = sizeOf l' := by
  induction h with
  | nil => rfl
  | cons x _ ih => simp only [List.cons.sizeOf_spec, ih]
  | swap x y l =>
    simp only [List.cons.sizeOf_spec]
    omega
  | trans _ _ ih₁ ih₂ => exact ih₁.trans ih₂

/-- Remove the member under `key`. -/
def removeField (key : String) (fields : List (String × Json N)) : List (String × Json N) :=
  fields.filter (·.1 ≠ key)

@[simp] lemma get_object (key : String) (fields : List (String × Json N)) :
    (object fields).get key = (fields.find? (·.1 = key)).map (·.2) := rfl

@[simp] lemma asArray_array (items : List (Json N)) : (array items).asArray = some items := rfl

@[simp] lemma asStr_string (s : String) : (string s : Json N).asStr = some s := rfl

@[simp] lemma asObject_object (fields : List (String × Json N)) :
    (object fields).asObject = some fields := rfl

lemma find_insertField_self (key : String) (value : Json N) :
    ∀ fields : List (String × Json N),
      ((insertField key value fields).find? (·.1 = key)).map (·.2) = some value
  | [] => by simp [insertField]
  | (k, v) :: rest => by
      unfold insertField
      split_ifs with h1 h2
      · simp
      · simp
      · have hk : ¬ (k = key) := fun h => h1 h.symm
        simp [hk, find_insertField_self key value rest]

/-- Looking up the key just inserted finds the inserted value. -/
@[simp] lemma get_insertField (key : String) (value : Json N) (fields : List (String × Json N)) :
    (object (insertField key value fields)).get key = some value :=
  find_insertField_self key value fields

end Json

end Ryeos
