import Ryeos.Core.Result
import Ryeos.Chain.Objects
import Ryeos.Lillux.CanonicalJson

/-!
# The content-addressed store

`lillux::cas::CasStore` (src/crates/kernel/lillux/src/cas.rs) keeps every entry under the SHA-256
of its bytes, at `<root>/<namespace>/<h[..2]>/<h[2..4]>/<h><ext>`: namespace `blobs` for raw bytes,
namespace `objects` with extension `.json` for JSON values in their canonical encoding.

SHA-256 is a parameter, `sha256 : ByteArray → Vector UInt8 32`.  Nothing below depends on which
function it is, not even on its being free of collisions: every read hashes what it read again and
compares the digest with the address, and a write over an existing entry only checks it.
`serde_json::from_slice` is a parameter too, `fromSlice`; the results on reading an object back
assume of it only `FromSliceDecodes`, that it reads UTF-8 bytes as one RFC 8259 text under the
default recursion limit.

The state is the file tree under the root, a map from a path to the bytes of the regular file
there (`CasStore`).  The operations are the store's public ones: `putBlob`, `putObject`,
`getBlob`, `getObject` and the `has` queries.

The results:
* `sha256Hex` always names a canonical address (`canonicalCasHash_sha256Hex`);
* a write publishes its bytes at its own address and touches no other file; over an existing
  file it changes nothing (`storeExactEntry_eq_ok`, `files_of_storeExactEntry`);
* `putObject` then `getObject` at the returned hash gives the value back exactly when the value
  nests fewer than `recursionLimit` arrays and objects deep, and fails to decode otherwise
  (`putObject_bind_getObject`);
* over any run of puts from an empty store every file lies at the address of its own bytes, so
  no read meets a corrupt entry (`Addressed`, `run_addressed`, `getBlob_run`).
-/

namespace Ryeos

namespace Lillux

/-! ## Addresses -/

section Hashing

variable (sha256 : ByteArray → Vector UInt8 32)

/-- **`sha256_hex`**: `format!("{:x}", Sha256::digest(data))`, each digest byte as two lowercase
hex digits. -/
def sha256Hex (data : ByteArray) : String :=
  String.ofList ((sha256 data).toList.flatMap fun byte => Hex.format 2 byte.toNat)

/-- **`canonical_cas_hash`**: a valid hash with no uppercase digit. -/
def canonicalCasHash (hash : String) : Bool :=
  Chain.validHash hash && !hash.toList.any Char.isUpper

/-- **`shard_path`**: the entry of `hash` in `namespace`, under two levels of shard directories
named by its first four digits. -/
def shardPath (root ns hash ext : String) : String :=
  root ++ "/" ++ ns ++ "/" ++ String.ofList (hash.toList.take 2) ++ "/" ++
    String.ofList ((hash.toList.drop 2).take 2) ++ "/" ++ hash ++ ext

/-- A string of ASCII characters takes one byte per character. -/
lemma utf8ByteSize_ofList_of_ascii :
    ∀ {cs : List Char}, (∀ c ∈ cs, c.toNat < 0x80) → (String.ofList cs).utf8ByteSize = cs.length
  | [], _ => rfl
  | c :: cs, h => by
    have hc : c.utf8Size = 1 := by
      rw [Char.utf8Size_eq_one_iff, UInt32.le_iff_toNat_le]
      exact Nat.le_of_lt_succ (h c List.mem_cons_self)
    have ih := utf8ByteSize_ofList_of_ascii fun x hx => h x (List.mem_cons_of_mem c hx)
    rw [← String.size_toByteArray, String.toByteArray_ofList] at ih ⊢
    rw [List.utf8Encode_cons, ByteArray.size_append, ih, List.utf8Encode_singleton,
      List.size_toByteArray, String.length_utf8EncodeChar, hc, List.length_cons, Nat.add_comm]

/-- A digest byte is two hex digits. -/
lemma format_byte (byte : UInt8) : Hex.format 2 byte.toNat = Hex.fixed 2 byte.toNat :=
  Hex.format_eq_fixed (by decide) (byte.toNat_lt.trans_le (by decide))

lemma length_sha256Hex (data : ByteArray) : (sha256Hex sha256 data).toList.length = 64 := by
  have hbytes : ∀ bytes : List UInt8,
      (bytes.flatMap fun byte => Hex.format 2 byte.toNat).length = 2 * bytes.length := by
    intro bytes
    induction bytes with
    | nil => rfl
    | cons byte bytes ih =>
      rw [List.flatMap_cons, List.length_append, ih, format_byte, Hex.length_fixed,
        List.length_cons]
      omega
  rw [sha256Hex, String.toList_ofList, hbytes, Vector.length_toList]

/-- Every character of a digest is one of the sixteen lowercase digits. -/
lemma mem_sha256Hex {data : ByteArray} {c : Char} (hc : c ∈ (sha256Hex sha256 data).toList) :
    ∃ d, d < 16 ∧ c = Nat.digitChar d := by
  rw [sha256Hex, String.toList_ofList, List.mem_flatMap] at hc
  obtain ⟨byte, -, hc⟩ := hc
  rw [format_byte] at hc
  exact Hex.mem_fixed hc

lemma digitChar_hexdigit : ∀ d, d < 16 →
    Chain.isAsciiHexdigit (Nat.digitChar d) = true ∧ (Nat.digitChar d).isUpper = false := by
  decide

/-- **`sha256_hex` always names a canonical address.** -/
theorem canonicalCasHash_sha256Hex (data : ByteArray) :
    canonicalCasHash (sha256Hex sha256 data) = true := by
  have hdigits : ∀ c ∈ (sha256Hex sha256 data).toList,
      Chain.isAsciiHexdigit c = true ∧ c.isUpper = false := by
    intro c hc
    obtain ⟨d, hd, rfl⟩ := mem_sha256Hex sha256 hc
    exact digitChar_hexdigit d hd
  have hsize : (sha256Hex sha256 data).utf8ByteSize = 64 := by
    have hlength := length_sha256Hex sha256 data
    rw [sha256Hex, String.toList_ofList] at hlength
    rw [sha256Hex, utf8ByteSize_ofList_of_ascii, hlength]
    intro c hc
    obtain ⟨d, hd, rfl⟩ := mem_sha256Hex sha256 (by rw [sha256Hex, String.toList_ofList]; exact hc)
    exact digitChar_ascii d hd
  simp only [canonicalCasHash, Chain.validHash, hsize, beq_self_eq_true, Bool.true_and,
    Bool.and_eq_true, List.all_eq_true, Bool.not_eq_true', List.any_eq_false]
  exact ⟨fun c hc => (hdigits c hc).1, fun c hc => by simp [(hdigits c hc).2]⟩

end Hashing

/-! ## The store -/

/-- A CAS root and the file tree under it: the bytes of the regular file at each path. -/
structure CasStore where
  root : String
  files : String → Option ByteArray

/-- A root with nothing under it. -/
def CasStore.empty (root : String) : CasStore :=
  ⟨root, fun _ => none⟩

/-- The tree with `bytes` published at `path`. -/
def CasStore.write (store : CasStore) (path : String) (bytes : ByteArray) : CasStore :=
  { store with files := Function.update store.files path (some bytes) }

@[simp] lemma CasStore.root_write (store : CasStore) (path : String) (bytes : ByteArray) :
    (store.write path bytes).root = store.root := rfl

@[simp] lemma CasStore.files_write_self (store : CasStore) (path : String) (bytes : ByteArray) :
    (store.write path bytes).files path = some bytes := by
  simp [CasStore.write]

lemma CasStore.files_write_of_ne (store : CasStore) {path p : String} (bytes : ByteArray)
    (h : p ≠ path) : (store.write path bytes).files p = store.files p := by
  simp [CasStore.write, h]

/-- Result of an immutable CAS publication.  `created` is false only when the exact verified
bytes already occupied the addressed entry. -/
structure CasPutOutcome where
  hash : String
  created : Bool
  deriving DecidableEq, Repr

/-- The display text of `CanonicalJsonError`. -/
def CanonicalJsonError.display (_ : CanonicalJsonError) : String :=
  "canonical JSON encoding failed"

section Operations

variable (sha256 : ByteArray → Vector UInt8 32) (fromSlice : ByteArray → Option (Json Number))

/-- **`open_existing_entry`**: the regular file of `hash` in a namespace, with its path. -/
def CasStore.openExistingEntry (store : CasStore) (ns hash ext : String) :
    Option (ByteArray × String) :=
  let path := shardPath store.root ns hash ext
  (store.files path).map fun file => (file, path)

/-- **`read_verified_entry`**: the bytes of an entry, refused unless they hash to its address. -/
def readVerifiedEntry (file : ByteArray) (expectedHash path : String) : Except String ByteArray := do
  let actualHash := sha256Hex sha256 file
  Except.bailIf (actualHash ≠ expectedHash)
    s!"CAS corruption: entry at {path} hashes to {actualHash}, expected {expectedHash}"
  return file

/-- **`verify_existing_exact_entry`**: an existing entry must be the verified bytes to be
written. -/
def verifyExistingExactEntry (file : ByteArray) (expectedHash : String) (expectedBytes : ByteArray)
    (path : String) : Except String Unit := do
  let existing ← readVerifiedEntry sha256 file expectedHash path
  Except.bailIf (existing ≠ expectedBytes)
    s!"CAS collision: existing entry at {path} differs from the bytes addressed by {expectedHash}"

/-- **`store_exact_entry`**: publish `bytes` at the entry of `hash`, or check the entry already
there; whether it was created. -/
def CasStore.storeExactEntry (store : CasStore) (ns hash ext : String) (bytes : ByteArray) :
    Except String (Bool × CasStore) :=
  let path := shardPath store.root ns hash ext
  match store.files path with
  | some existing => do
    verifyExistingExactEntry sha256 existing hash bytes path
    return (false, store)
  | none => return (true, store.write path bytes)

/-- **`CasStore::put_blob`**. -/
def CasStore.putBlob (store : CasStore) (data : ByteArray) :
    Except String (CasPutOutcome × CasStore) := do
  let hash := sha256Hex sha256 data
  let (created, store) ← store.storeExactEntry sha256 "blobs" hash "" data
  return (⟨hash, created⟩, store)

/-- The bytes of a value's canonical JSON text. -/
def canonicalBytes (value : Value) : ByteArray :=
  (String.ofList (writeCanonicalJson value.json)).toByteArray

/-- **`CasStore::put_object`**: the canonical bytes of the value, under their hash. -/
def CasStore.putObject (store : CasStore) (value : Value) :
    Except String (CasPutOutcome × CasStore) := do
  let json ← (canonicalJson value.json).mapError CanonicalJsonError.display
  let hash := sha256Hex sha256 json.toByteArray
  let (created, store) ← store.storeExactEntry sha256 "objects" hash ".json" json.toByteArray
  return (⟨hash, created⟩, store)

/-- **`CasStore::get_blob`**: the verified bytes of a blob; nothing for a malformed hash or a
missing entry. -/
def CasStore.getBlob (store : CasStore) (hash : String) : Except String (Option ByteArray) :=
  if !canonicalCasHash hash then .ok none
  else
    match store.openExistingEntry "blobs" hash "" with
    | none => .ok none
    | some (file, path) => some <$> readVerifiedEntry sha256 file hash path

/-- **`CasStore::get_object`**: the value of an object entry, refused unless its bytes hash to
its address, decode, and are the value's canonical encoding. -/
def CasStore.getObject (store : CasStore) (hash : String) : Except String (Option (Json Number)) :=
  if !canonicalCasHash hash then .ok none
  else
    match store.openExistingEntry "objects" hash ".json" with
    | none => .ok none
    | some (file, path) => do
      let data ← readVerifiedEntry sha256 file hash path
      let value ← (fromSlice data).okOr s!"decode CAS object {path}"
      let canonical ← Except.withContext s!"canonicalize CAS object {path}"
        ((canonicalJson value).mapError CanonicalJsonError.display)
      let canonicalHash := sha256Hex sha256 canonical.toByteArray
      Except.bailIf (canonical.toByteArray ≠ data)
        s!"CAS object bytes satisfy address {hash} but violate the RyeOS canonical JSON contract: {path} (canonical bytes would address {canonicalHash})"
      return some value

/-- **`CasStore::has_blob`**. -/
def CasStore.hasBlob (store : CasStore) (hash : String) : Except String Bool :=
  Option.isSome <$> store.getBlob sha256 hash

/-- **`CasStore::has_object`**. -/
def CasStore.hasObject (store : CasStore) (hash : String) : Except String Bool :=
  Option.isSome <$> store.getObject sha256 fromSlice hash

/-- **`CasStore::has`**: both namespaces are read, so that corruption in one is not hidden by a
valid entry in the other. -/
def CasStore.has (store : CasStore) (hash : String) : Except String Bool := do
  let hasBlob ← store.hasBlob sha256 hash
  let hasObject ← store.hasObject sha256 fromSlice hash
  return hasBlob || hasObject

/-! ### What one write does -/

variable {sha256 fromSlice}

lemma readVerifiedEntry_eq_ok {file bytes : ByteArray} {hash path : String} :
    readVerifiedEntry sha256 file hash path = .ok bytes ↔ sha256Hex sha256 file = hash ∧ file = bytes := by
  by_cases h : sha256Hex sha256 file = hash
  · simp [readVerifiedEntry, Except.bailIf, h, bind, Except.bind, pure, Except.pure]
  · simp [readVerifiedEntry, Except.bailIf, h, bind, Except.bind]

lemma readVerifiedEntry_of_eq {file : ByteArray} {hash path : String} (h : sha256Hex sha256 file = hash) :
    readVerifiedEntry sha256 file hash path = .ok file :=
  readVerifiedEntry_eq_ok.mpr ⟨h, rfl⟩

lemma verifyExistingExactEntry_eq_ok {file bytes : ByteArray} {hash path : String} {u : Unit} :
    verifyExistingExactEntry sha256 file hash bytes path = .ok u ↔
      sha256Hex sha256 file = hash ∧ file = bytes := by
  rw [verifyExistingExactEntry, Except.bind_eq_ok]
  constructor
  · rintro ⟨existing, hread, hcheck⟩
    obtain ⟨hhash, rfl⟩ := readVerifiedEntry_eq_ok.mp hread
    exact ⟨hhash, by simpa using hcheck⟩
  · rintro ⟨hhash, rfl⟩
    exact ⟨file, readVerifiedEntry_of_eq hhash, by simp⟩

/-- **What `store_exact_entry` does**: on a free entry it publishes the bytes; over an existing
entry it succeeds only if the entry holds exactly those bytes, and they hash to the address. -/
theorem storeExactEntry_eq_ok {store store' : CasStore} {ns hash ext : String} {bytes : ByteArray}
    {created : Bool} :
    store.storeExactEntry sha256 ns hash ext bytes = .ok (created, store') ↔
      (store.files (shardPath store.root ns hash ext) = none ∧ created = true ∧
        store' = store.write (shardPath store.root ns hash ext) bytes) ∨
      (store.files (shardPath store.root ns hash ext) = some bytes ∧ sha256Hex sha256 bytes = hash ∧
        created = false ∧ store' = store) := by
  unfold CasStore.storeExactEntry
  dsimp only
  cases hfile : store.files (shardPath store.root ns hash ext) with
  | none => simp [pure, Except.pure, eq_comm]
  | some existing =>
    rw [Except.bind_eq_ok]
    constructor
    · rintro ⟨u, hverify, hret⟩
      obtain ⟨hhash, rfl⟩ := verifyExistingExactEntry_eq_ok.mp hverify
      simp only [pure, Except.pure, Except.ok.injEq, Prod.mk.injEq] at hret
      exact .inr ⟨rfl, hhash, hret.1.symm, hret.2.symm⟩
    · rintro (⟨hnone, -⟩ | ⟨hsome, hhash, rfl, rfl⟩)
      · cases hnone
      · cases hsome
        exact ⟨(), verifyExistingExactEntry_eq_ok.mpr ⟨hhash, rfl⟩, rfl⟩

lemma CasStore.write_of_files {store : CasStore} {path : String} {bytes : ByteArray}
    (h : store.files path = some bytes) : store.write path bytes = store := by
  obtain ⟨root, files⟩ := store
  simp only [CasStore.write, CasStore.mk.injEq, true_and]
  exact Function.update_eq_self_iff.mpr h.symm

/-- **After a successful write the entry holds exactly the written bytes**, and nothing else has
changed: the store is the old one with the bytes published at the entry's path (a no-op when they
were there already). -/
lemma store_of_storeExactEntry {store store' : CasStore} {ns hash ext : String}
    {bytes : ByteArray} {created : Bool}
    (h : store.storeExactEntry sha256 ns hash ext bytes = .ok (created, store')) :
    store' = store.write (shardPath store.root ns hash ext) bytes := by
  rcases storeExactEntry_eq_ok.mp h with ⟨-, -, rfl⟩ | ⟨hsome, -, -, rfl⟩
  · rfl
  · exact (CasStore.write_of_files hsome).symm

/-- The tail both puts share: the outcome names the hash and whether the entry was created. -/
lemma storeExactEntry_bind_eq_ok {store store' : CasStore} {ns hash ext : String}
    {bytes : ByteArray} {out : CasPutOutcome} :
    (store.storeExactEntry sha256 ns hash ext bytes >>= fun r =>
        pure ((⟨hash, r.1⟩ : CasPutOutcome), r.2)) = .ok (out, store') ↔
      out.hash = hash ∧ store.storeExactEntry sha256 ns hash ext bytes = .ok (out.created, store') := by
  rw [Except.bind_eq_ok]
  constructor
  · rintro ⟨⟨created, store''⟩, hstore, hret⟩
    cases hret
    exact ⟨rfl, hstore⟩
  · obtain ⟨hash', created⟩ := out
    rintro ⟨rfl, hstore⟩
    exact ⟨(created, store'), hstore, rfl⟩

/-- **What `put_blob` does**: its hash is the digest of the bytes, and it stores them at that
hash. -/
theorem putBlob_eq_ok {store store' : CasStore} {data : ByteArray} {out : CasPutOutcome} :
    store.putBlob sha256 data = .ok (out, store') ↔
      out.hash = sha256Hex sha256 data ∧
      store.storeExactEntry sha256 "blobs" out.hash "" data = .ok (out.created, store') := by
  rw [CasStore.putBlob, storeExactEntry_bind_eq_ok]
  exact and_congr_right fun hhash => by rw [hhash]

/-- **What `put_object` does**: its hash is the digest of the value's canonical bytes, and it
stores those bytes at that hash. -/
theorem putObject_eq_ok {store store' : CasStore} {value : Value} {out : CasPutOutcome} :
    store.putObject sha256 value = .ok (out, store') ↔
      out.hash = sha256Hex sha256 (canonicalBytes value) ∧
      store.storeExactEntry sha256 "objects" out.hash ".json" (canonicalBytes value) =
        .ok (out.created, store') := by
  -- `canonical_json` succeeds, with the bytes `canonicalBytes` names
  show (store.storeExactEntry sha256 "objects" (sha256Hex sha256 (canonicalBytes value)) ".json"
    (canonicalBytes value) >>= fun r =>
      pure ((⟨sha256Hex sha256 (canonicalBytes value), r.1⟩ : CasPutOutcome), r.2)) = _ ↔ _
  rw [storeExactEntry_bind_eq_ok]
  exact and_congr_right fun hhash => by rw [hhash]

/-! ### Reading an object back -/

/-- **An entry holding a value's canonical bytes at their address reads back as the value**, when
it nests fewer than `recursionLimit` deep; deeper, `from_slice` refuses it. -/
lemma getObject_of_files (hdecode : FromSliceDecodes fromSlice) {store : CasStore} {value : Value}
    (hfile : store.files (shardPath store.root "objects" (sha256Hex sha256 (canonicalBytes value))
      ".json") = some (canonicalBytes value)) :
    store.getObject sha256 fromSlice (sha256Hex sha256 (canonicalBytes value)) =
      if value.json.depth < recursionLimit then .ok (some value.json)
      else .error ("decode CAS object " ++
        shardPath store.root "objects" (sha256Hex sha256 (canonicalBytes value)) ".json") := by
  have hcanonical := fromSlice_canonical hdecode value
  rw [← canonicalBytes] at hcanonical
  simp only [CasStore.getObject, canonicalCasHash_sha256Hex, Bool.not_true, CasStore.openExistingEntry,
    hfile, Option.map_some, Bool.false_eq_true, if_false]
  rw [readVerifiedEntry_of_eq rfl, Except.ok_bind]
  split
  · next hdepth =>
    rw [if_pos hdepth] at hcanonical
    simp only [hcanonical, Option.okOr, Except.ok_bind, canonicalJson, Except.withContext,
      Except.mapError]
    simp only [canonicalBytes, ne_eq, not_true_eq_false, Except.bailIf, if_false, Except.ok_bind]
    rfl
  · next hdepth =>
    rw [if_neg hdepth] at hcanonical
    simp only [hcanonical, Option.okOr, Except.error_bind]
    rfl

/-- **`put_object` then `get_object` at the returned hash**: whatever the store and whatever the
hash function, the pair fails exactly when the put does, or, after a successful put, with the
decode error of a value nested `recursionLimit` or more deep; otherwise it gives the value
back. -/
theorem putObject_bind_getObject (hdecode : FromSliceDecodes fromSlice) (store : CasStore)
    (value : Value) :
    (store.putObject sha256 value >>= fun r => r.2.getObject sha256 fromSlice r.1.hash) =
      (store.putObject sha256 value >>= fun r =>
        if value.json.depth < recursionLimit then .ok (some value.json)
        else .error ("decode CAS object " ++ shardPath store.root "objects" r.1.hash ".json")) := by
  cases hput : store.putObject sha256 value with
  | error e => rfl
  | ok r =>
    obtain ⟨out, store'⟩ := r
    obtain ⟨hhash, hstore⟩ := putObject_eq_ok.mp hput
    have hstore' := store_of_storeExactEntry hstore
    subst hstore'
    rw [Except.ok_bind, Except.ok_bind]
    dsimp only
    rw [hhash, getObject_of_files hdecode (by simp), CasStore.root_write]

end Operations

/-! ## Runs of puts -/

/-- A write request to the store. -/
inductive CasOp where
  | putBlob (data : ByteArray)
  | putObject (value : Value)

/-- The namespace a request writes in. -/
def CasOp.ns : CasOp → String
  | .putBlob _ => "blobs"
  | .putObject _ => "objects"

/-- The extension of the entry a request writes. -/
def CasOp.ext : CasOp → String
  | .putBlob _ => ""
  | .putObject _ => ".json"

/-- The bytes a request writes. -/
def CasOp.bytes : CasOp → ByteArray
  | .putBlob data => data
  | .putObject value => canonicalBytes value

section Runs

variable (sha256 : ByteArray → Vector UInt8 32) (fromSlice : ByteArray → Option (Json Number))

/-- The path of the entry a request writes: the address of its bytes. -/
def CasOp.path (op : CasOp) (root : String) : String :=
  shardPath root op.ns (sha256Hex sha256 op.bytes) op.ext

/-- One request. -/
def CasStore.apply (store : CasStore) : CasOp → Except String (CasPutOutcome × CasStore)
  | .putBlob data => store.putBlob sha256 data
  | .putObject value => store.putObject sha256 value

/-- The store after one request; a refused request leaves it as it was. -/
def CasStore.step (store : CasStore) (op : CasOp) : CasStore :=
  match store.apply sha256 op with
  | .ok (_, store') => store'
  | .error _ => store

/-- The store after a run of requests. -/
def CasStore.run (store : CasStore) (ops : List CasOp) : CasStore :=
  ops.foldl (CasStore.step sha256) store

variable {sha256 fromSlice}

@[simp] lemma CasStore.run_nil (store : CasStore) : store.run sha256 [] = store := rfl

@[simp] lemma CasStore.run_cons (store : CasStore) (op : CasOp) (ops : List CasOp) :
    store.run sha256 (op :: ops) = (store.step sha256 op).run sha256 ops := rfl

/-- Every request is a put of its bytes in its namespace. -/
lemma apply_eq_ok {store store' : CasStore} {op : CasOp} {out : CasPutOutcome} :
    store.apply sha256 op = .ok (out, store') ↔
      out.hash = sha256Hex sha256 op.bytes ∧
      store.storeExactEntry sha256 op.ns out.hash op.ext op.bytes = .ok (out.created, store') := by
  cases op with
  | putBlob data => exact putBlob_eq_ok
  | putObject value => exact putObject_eq_ok

/-- **One request either changes nothing or publishes its bytes at its own address.** -/
theorem step_eq (store : CasStore) (op : CasOp) :
    store.step sha256 op = store ∨
      store.step sha256 op = store.write (op.path sha256 store.root) op.bytes := by
  unfold CasStore.step
  split
  · next out store' happly =>
    obtain ⟨hhash, hstore⟩ := apply_eq_ok.mp happly
    rw [hhash] at hstore
    exact .inr (store_of_storeExactEntry hstore)
  · exact .inl rfl

@[simp] lemma root_step (store : CasStore) (op : CasOp) :
    (store.step sha256 op).root = store.root := by
  rcases step_eq store op with h | h <;> rw [h]
  rfl

@[simp] lemma root_run (store : CasStore) (ops : List CasOp) :
    (store.run sha256 ops).root = store.root := by
  induction ops generalizing store with
  | nil => rfl
  | cons op ops ih => rw [CasStore.run_cons, ih, root_step]

/-- **A request never changes a file that exists**: over an existing entry a put only checks it. -/
lemma files_step_of_files {store : CasStore} {path : String} {bytes : ByteArray}
    (hfile : store.files path = some bytes) (op : CasOp) :
    (store.step sha256 op).files path = some bytes := by
  unfold CasStore.step
  split
  · next out store' happly =>
    obtain ⟨-, hstore⟩ := apply_eq_ok.mp happly
    rcases storeExactEntry_eq_ok.mp hstore with ⟨hnone, -, rfl⟩ | ⟨-, -, -, rfl⟩
    · -- the request wrote a free entry, which is not this one
      have hne : path ≠ shardPath store.root op.ns out.hash op.ext := by
        rintro rfl
        rw [hfile] at hnone
        cases hnone
      rw [CasStore.files_write_of_ne store _ hne, hfile]
    · exact hfile
  · exact hfile

/-- **The store is immutable**: a file that exists keeps its bytes through any run of requests. -/
theorem files_run_of_files {store : CasStore} {path : String} {bytes : ByteArray}
    (hfile : store.files path = some bytes) (ops : List CasOp) :
    (store.run sha256 ops).files path = some bytes := by
  induction ops generalizing store with
  | nil => exact hfile
  | cons op ops ih => exact ih (files_step_of_files hfile op)

/-! ### Every file at the address of its bytes -/

lemma toNat_le_of_le {c d : Char} (h : c ≤ d) : c.toNat ≤ d.toNat :=
  UInt32.le_iff_toNat_le.mp h

lemma toNat_lt_of_isAsciiHexdigit {c : Char} (h : Chain.isAsciiHexdigit c = true) :
    c.toNat < 0x80 := by
  have h9 : '9'.toNat = 57 := rfl
  have hf : 'f'.toNat = 102 := rfl
  have hF : 'F'.toNat = 70 := rfl
  simp only [Chain.isAsciiHexdigit, Bool.or_eq_true, Bool.and_eq_true, decide_eq_true_eq] at h
  rcases h with (⟨-, h⟩ | ⟨-, h⟩) | ⟨-, h⟩ <;> have := toNat_le_of_le h <;> omega

/-- A canonical address is 64 characters long. -/
lemma length_of_canonicalCasHash {hash : String} (h : canonicalCasHash hash = true) :
    hash.toList.length = 64 := by
  simp only [canonicalCasHash, Chain.validHash, Bool.and_eq_true, beq_iff_eq,
    List.all_eq_true] at h
  obtain ⟨⟨hsize, hdigits⟩, -⟩ := h
  rw [← hsize, ← utf8ByteSize_ofList_of_ascii fun c hc => toNat_lt_of_isAsciiHexdigit (hdigits c hc),
    String.ofList_toList]

lemma toList_shardPath (root ns hash ext : String) :
    (shardPath root ns hash ext).toList =
      root.toList ++ '/' :: (ns.toList ++ '/' :: (hash.toList.take 2 ++
        '/' :: ((hash.toList.drop 2).take 2 ++ '/' :: (hash.toList ++ ext.toList)))) := by
  simp [shardPath]

/-- **Distinct addresses have distinct paths**: in the two namespaces, the path of an entry names
its namespace, its 64-digit hash and its extension. -/
lemma shardPath_inj {root ns ns' hash hash' ext ext' : String}
    (hns : ns = "blobs" ∨ ns = "objects") (hns' : ns' = "blobs" ∨ ns' = "objects")
    (hlength : hash.toList.length = 64) (hlength' : hash'.toList.length = 64)
    (h : shardPath root ns hash ext = shardPath root ns' hash' ext') :
    ns = ns' ∧ hash = hash' ∧ ext = ext' := by
  have hlist := congrArg String.toList h
  rw [toList_shardPath, toList_shardPath, List.append_cancel_left_eq, List.cons.injEq] at hlist
  replace hlist := hlist.2
  -- the namespaces differ in their first letter
  have hsame : ns = ns' := by
    rcases hns with rfl | rfl <;> rcases hns' with rfl | rfl
    all_goals first | rfl | simp at hlist
  subst hsame
  rw [List.append_cancel_left_eq, List.cons.injEq] at hlist
  -- then two shard names of two digits each, then the hash and its extension
  have htake : (hash.toList.take 2).length = (hash'.toList.take 2).length := by
    simp [hlength, hlength']
  have htake' : ((hash.toList.drop 2).take 2).length = ((hash'.toList.drop 2).take 2).length := by
    simp [hlength, hlength']
  obtain ⟨-, hlist⟩ := List.append_inj hlist.2 htake
  rw [List.cons.injEq] at hlist
  obtain ⟨-, hlist⟩ := List.append_inj hlist.2 htake'
  rw [List.cons.injEq] at hlist
  obtain ⟨hhash, hext⟩ := List.append_inj hlist.2 (hlength.trans hlength'.symm)
  exact ⟨rfl, String.toList_inj.mp hhash, String.toList_inj.mp hext⟩

variable (sha256) in
/-- **Every file lies at the address of its own bytes**, written there by some request. -/
def Addressed (store : CasStore) : Prop :=
  ∀ path bytes, store.files path = some bytes →
    ∃ op : CasOp, path = op.path sha256 store.root ∧ bytes = op.bytes

variable (sha256) in
lemma addressed_empty (root : String) : Addressed sha256 (CasStore.empty root) :=
  fun _ _ h => by cases h

lemma addressed_step {store : CasStore} (h : Addressed sha256 store) (op : CasOp) :
    Addressed sha256 (store.step sha256 op) := by
  rcases step_eq store op with hstep | hstep <;> rw [hstep]
  · exact h
  · intro path bytes hfile
    rw [CasStore.root_write]
    by_cases hpath : path = op.path sha256 store.root
    · subst hpath
      rw [CasStore.files_write_self, Option.some.injEq] at hfile
      exact ⟨op, rfl, hfile.symm⟩
    · rw [CasStore.files_write_of_ne _ _ hpath] at hfile
      exact h path bytes hfile

theorem addressed_run {store : CasStore} (h : Addressed sha256 store) (ops : List CasOp) :
    Addressed sha256 (store.run sha256 ops) := by
  induction ops generalizing store with
  | nil => exact h
  | cons op ops ih => exact ih (addressed_step h op)

/-- In an addressed store, the file at a canonical address of a namespace was written by a
request of that namespace, and its bytes have that digest. -/
lemma op_of_addressed {store : CasStore} (h : Addressed sha256 store) {ns hash ext : String}
    {bytes : ByteArray} (hns : ns = "blobs" ∨ ns = "objects") (hhash : canonicalCasHash hash = true)
    (hfile : store.files (shardPath store.root ns hash ext) = some bytes) :
    ∃ op : CasOp, op.ns = ns ∧ op.ext = ext ∧ sha256Hex sha256 op.bytes = hash ∧ bytes = op.bytes := by
  obtain ⟨op, hpath, rfl⟩ := h _ _ hfile
  have hop : op.ns = "blobs" ∨ op.ns = "objects" := by
    cases op
    · exact .inl rfl
    · exact .inr rfl
  obtain ⟨hns_eq, hhash_eq, hext_eq⟩ :=
    shardPath_inj hns hop (length_of_canonicalCasHash hhash) (length_sha256Hex sha256 _) hpath
  exact ⟨op, hns_eq.symm, hext_eq.symm, hhash_eq.symm, rfl⟩

/-- **No blob read from an addressed store meets a corrupt entry**: it finds nothing, or bytes
with the digest it asked for. -/
theorem getBlob_of_addressed {store : CasStore} (h : Addressed sha256 store) (hash : String) :
    store.getBlob sha256 hash = .ok none ∨
      ∃ bytes, sha256Hex sha256 bytes = hash ∧ store.getBlob sha256 hash = .ok (some bytes) := by
  unfold CasStore.getBlob
  by_cases hhash : canonicalCasHash hash = true
  · simp only [hhash, Bool.not_true, Bool.false_eq_true, if_false, CasStore.openExistingEntry]
    cases hfile : store.files (shardPath store.root "blobs" hash "") with
    | none => exact .inl rfl
    | some bytes =>
      obtain ⟨op, -, -, hdigest, rfl⟩ := op_of_addressed h (.inl rfl) hhash hfile
      refine .inr ⟨op.bytes, hdigest, ?_⟩
      rw [Option.map_some]
      dsimp only
      rw [readVerifiedEntry_of_eq hdigest]
      rfl
  · simp only [Bool.not_eq_true] at hhash
    simp only [hhash, Bool.not_false, if_true, true_or]

/-- **No object read from an addressed store meets a corrupt or non-canonical entry**: it finds
nothing, or the canonical bytes of a value at their own address, which read back as the value
unless it nests `recursionLimit` or more deep. -/
theorem getObject_of_addressed (hdecode : FromSliceDecodes fromSlice) {store : CasStore}
    (h : Addressed sha256 store) (hash : String) :
    store.getObject sha256 fromSlice hash = .ok none ∨
      ∃ value : Value, hash = sha256Hex sha256 (canonicalBytes value) ∧
        store.getObject sha256 fromSlice hash =
          if value.json.depth < recursionLimit then .ok (some value.json)
          else .error ("decode CAS object " ++ shardPath store.root "objects" hash ".json") := by
  by_cases hhash : canonicalCasHash hash = true
  · cases hfile : store.files (shardPath store.root "objects" hash ".json") with
    | none =>
      left
      simp only [CasStore.getObject, hhash, Bool.not_true, Bool.false_eq_true, if_false,
        CasStore.openExistingEntry, hfile, Option.map_none]
    | some bytes =>
      obtain ⟨op, hns, -, hdigest, rfl⟩ := op_of_addressed h (.inr rfl) hhash hfile
      cases op with
      | putBlob data => simp [CasOp.ns] at hns
      | putObject value =>
        subst hdigest
        exact .inr ⟨value, rfl, getObject_of_files hdecode hfile⟩
  · left
    simp only [Bool.not_eq_true] at hhash
    simp only [CasStore.getObject, hhash, Bool.not_false, if_true]

/-- **A store built by puts from an empty root never serves a corrupt entry**: every blob read
finds nothing or bytes of the digest asked for, and every object read finds nothing or a value
stored under the digest of its canonical bytes. -/
theorem reads_after_puts (hdecode : FromSliceDecodes fromSlice) (root : String) (ops : List CasOp)
    (hash : String) :
    (((CasStore.empty root).run sha256 ops).getBlob sha256 hash = .ok none ∨
      ∃ bytes, sha256Hex sha256 bytes = hash ∧
        ((CasStore.empty root).run sha256 ops).getBlob sha256 hash = .ok (some bytes)) ∧
    (((CasStore.empty root).run sha256 ops).getObject sha256 fromSlice hash = .ok none ∨
      ∃ value : Value, hash = sha256Hex sha256 (canonicalBytes value) ∧
        ((CasStore.empty root).run sha256 ops).getObject sha256 fromSlice hash =
          if value.json.depth < recursionLimit then .ok (some value.json)
          else .error ("decode CAS object " ++ shardPath root "objects" hash ".json")) := by
  have haddressed := addressed_run (addressed_empty sha256 root) ops
  refine ⟨getBlob_of_addressed haddressed hash, ?_⟩
  have hobject := getObject_of_addressed hdecode haddressed hash
  rwa [root_run] at hobject

/-- Reads from a store holding one `null` object, with the reader `decodeSlice` and a digest
function that maps every input to zero bytes. -/
theorem reads_after_puts_of_null_object :
    let sha256 : ByteArray → Vector UInt8 32 := fun _ => Vector.replicate 32 0
    let store := (CasStore.empty "cas").run sha256 [.putObject ⟨.null, rfl⟩]
    let hash := sha256Hex sha256 (canonicalBytes ⟨.null, rfl⟩)
    FromSliceDecodes decodeSlice ∧
    ((store.getBlob sha256 hash = .ok none ∨
      ∃ bytes, sha256Hex sha256 bytes = hash ∧ store.getBlob sha256 hash = .ok (some bytes)) ∧
    (store.getObject sha256 decodeSlice hash = .ok none ∨
      ∃ value : Value, hash = sha256Hex sha256 (canonicalBytes value) ∧
        store.getObject sha256 decodeSlice hash =
          if value.json.depth < recursionLimit then .ok (some value.json)
          else .error ("decode CAS object " ++ shardPath "cas" "objects" hash ".json"))) :=
  ⟨fromSliceDecodes_decodeSlice, reads_after_puts fromSliceDecodes_decodeSlice "cas" _ _⟩

/-- **A stored value stays**: after a successful `put_object`, any later run of requests leaves
`get_object` at the returned hash as it was right after the put. -/
theorem getObject_run_of_putObject (hdecode : FromSliceDecodes fromSlice) {store store' : CasStore}
    {value : Value} {out : CasPutOutcome} (hput : store.putObject sha256 value = .ok (out, store')) (ops : List CasOp) :
    (store'.run sha256 ops).getObject sha256 fromSlice out.hash =
      if value.json.depth < recursionLimit then .ok (some value.json)
      else .error ("decode CAS object " ++ shardPath store.root "objects" out.hash ".json") := by
  obtain ⟨hhash, hstore⟩ := putObject_eq_ok.mp hput
  have hroot : (store'.run sha256 ops).root = store.root := by
    rw [root_run, store_of_storeExactEntry hstore, CasStore.root_write]
  -- the entry the put published is still there after the run
  have hfile : (store'.run sha256 ops).files (shardPath (store'.run sha256 ops).root "objects"
      (sha256Hex sha256 (canonicalBytes value)) ".json") = some (canonicalBytes value) := by
    rw [hroot, ← hhash]
    refine files_run_of_files ?_ ops
    rw [store_of_storeExactEntry hstore, CasStore.files_write_self]
  rw [hhash, getObject_of_files hdecode hfile, hroot]

/-- `null` put into an empty store and read back after a blob put, with the reader `decodeSlice`
and a digest function that maps every input to zero bytes. -/
theorem getObject_run_of_putObject_null :
    let sha256 : ByteArray → Vector UInt8 32 := fun _ => Vector.replicate 32 0
    let value : Value := ⟨.null, rfl⟩
    let hash := sha256Hex sha256 (canonicalBytes value)
    let store' := (CasStore.empty "cas").write (shardPath "cas" "objects" hash ".json")
      (canonicalBytes value)
    FromSliceDecodes decodeSlice ∧
    (CasStore.empty "cas").putObject sha256 value = .ok (⟨hash, true⟩, store') ∧
    (store'.run sha256 [.putBlob ByteArray.empty]).getObject sha256 decodeSlice hash =
      if value.json.depth < recursionLimit then .ok (some value.json)
      else .error ("decode CAS object " ++ shardPath "cas" "objects" hash ".json") := by
  intro sha256 value hash store'
  have hput : (CasStore.empty "cas").putObject sha256 value = .ok (⟨hash, true⟩, store') :=
    putObject_eq_ok.mpr ⟨rfl, storeExactEntry_eq_ok.mpr (.inl ⟨rfl, rfl, rfl⟩)⟩
  exact ⟨fromSliceDecodes_decodeSlice, hput,
    getObject_run_of_putObject fromSliceDecodes_decodeSlice hput _⟩

end Runs

/-! ## The round trip through the store -/

/-- **The canonical JSON of a value, and the value back from the store.**  The text is the
value's compact text, members in the (increasing) order of the map's keys; it is ASCII; it decodes
to the value under RFC 8259 with no limit on nesting, so distinct values have distinct texts.  Put
into any store under any hash function and read back at the returned hash, the value comes back
when it nests fewer than `recursionLimit` arrays and objects deep; deeper, `from_slice` refuses
the stored bytes. -/
theorem canonical_json_round_trips (sha256 : ByteArray → Vector UInt8 32)
    (fromSlice : ByteArray → Option (Json Number)) (hdecode : FromSliceDecodes fromSlice)
    (store : CasStore) (value : Value) :
    canonicalJson value.json =
        .ok (String.ofList (JsonText.write writeString writeNumber value.json)) ∧
      (∀ c ∈ writeCanonicalJson value.json, c.toNat < 0x80) ∧
      JsonText.decodeUnbounded Number.ofLiteral (writeCanonicalJson value.json) = some value.json ∧
      (∀ other : Value, writeCanonicalJson value.json = writeCanonicalJson other.json →
        value = other) ∧
      (store.putObject sha256 value >>= fun r => r.2.getObject sha256 fromSlice r.1.hash) =
        (store.putObject sha256 value >>= fun r =>
          if value.json.depth < recursionLimit then .ok (some value.json)
          else .error ("decode CAS object " ++ shardPath store.root "objects" r.1.hash ".json")) := by
  refine ⟨?_, canonical_ascii value.json, decodeUnbounded_canonical value,
    fun other h => writeCanonicalJson_injective h, putObject_bind_getObject hdecode store value⟩
  rw [canonicalJson, writeCanonicalJson_of_ordered value.ordered]

/-- The round trip of `null` through an empty store, with the reader `decodeSlice` and a digest
function that maps every input to zero bytes. -/
theorem canonical_json_round_trips_of_null :
    let sha256 : ByteArray → Vector UInt8 32 := fun _ => Vector.replicate 32 0
    let store := CasStore.empty "cas"
    let value : Value := ⟨.null, rfl⟩
    FromSliceDecodes decodeSlice ∧
    (canonicalJson value.json =
        .ok (String.ofList (JsonText.write writeString writeNumber value.json)) ∧
      (∀ c ∈ writeCanonicalJson value.json, c.toNat < 0x80) ∧
      JsonText.decodeUnbounded Number.ofLiteral (writeCanonicalJson value.json) = some value.json ∧
      (∀ other : Value, writeCanonicalJson value.json = writeCanonicalJson other.json →
        value = other) ∧
      (store.putObject sha256 value >>= fun r => r.2.getObject sha256 decodeSlice r.1.hash) =
        (store.putObject sha256 value >>= fun r =>
          if value.json.depth < recursionLimit then .ok (some value.json)
          else .error ("decode CAS object " ++ shardPath store.root "objects" r.1.hash ".json"))) :=
  ⟨fromSliceDecodes_decodeSlice,
    canonical_json_round_trips _ decodeSlice fromSliceDecodes_decodeSlice _ _⟩

/-- `null` inside `n` arrays of one item. -/
def nestedArrays : Nat → Json Number
  | 0 => .null
  | n + 1 => .array [nestedArrays n]

lemma ordered_nestedArrays : ∀ n, (nestedArrays n).ordered = true
  | 0 => rfl
  | n + 1 => by
    rw [nestedArrays, Json.ordered, Json.orderedItems, ordered_nestedArrays n, Json.orderedItems]
    rfl

lemma depth_nestedArrays : ∀ n, (nestedArrays n).depth = n
  | 0 => rfl
  | n + 1 => by
    rw [nestedArrays, Json.depth, Json.depthItems, depth_nestedArrays n, Json.depthItems,
      Nat.max_zero]

/-- `null` inside `recursionLimit` arrays. -/
def deepValue : Value :=
  ⟨nestedArrays recursionLimit, ordered_nestedArrays recursionLimit⟩

/-- **A value the store accepts and cannot give back**: put into an empty store, under any hash
function, `null` inside 128 arrays is stored under its hash, and `get_object` at that hash fails
to decode it. -/
lemma putObject_deepValue_getObject (sha256 : ByteArray → Vector UInt8 32)
    {fromSlice : ByteArray → Option (Json Number)} (hdecode : FromSliceDecodes fromSlice)
    (root : String) :
    ((CasStore.empty root).putObject sha256 deepValue >>= fun r => r.2.getObject sha256 fromSlice r.1.hash) =
      .error ("decode CAS object " ++
        shardPath root "objects" (sha256Hex sha256 (canonicalBytes deepValue)) ".json") := by
  have hput : (CasStore.empty root).putObject sha256 deepValue =
      .ok (⟨sha256Hex sha256 (canonicalBytes deepValue), true⟩,
        (CasStore.empty root).write
          (shardPath root "objects" (sha256Hex sha256 (canonicalBytes deepValue)) ".json")
          (canonicalBytes deepValue)) :=
    putObject_eq_ok.mpr ⟨rfl, storeExactEntry_eq_ok.mpr (.inl ⟨rfl, rfl, rfl⟩)⟩
  have hdepth : ¬ deepValue.json.depth < recursionLimit := by
    rw [deepValue, depth_nestedArrays]
    exact Nat.lt_irrefl _
  rw [putObject_bind_getObject hdecode, hput, Except.ok_bind]
  exact if_neg hdepth

/-- The deep value at the root `cas`, with a digest function that maps every input to zero bytes
(any other behaves the same) and the reader `decodeSlice`. -/
theorem get_object_refuses_deep_value :
    ((CasStore.empty "cas").putObject (fun _ => Vector.replicate 32 0) deepValue >>= fun r =>
        r.2.getObject (fun _ => Vector.replicate 32 0) decodeSlice r.1.hash) =
      .error ("decode CAS object " ++ shardPath "cas" "objects"
        (sha256Hex (fun _ => Vector.replicate 32 0) (canonicalBytes deepValue)) ".json") :=
  putObject_deepValue_getObject _ fromSliceDecodes_decodeSlice "cas"

end Lillux

end Ryeos
