import Ryeos.Core.Json
import Ryeos.Core.Glob
import Ryeos.Core.Result
import Ryeos.Resolution.Extends

/-!
# Capability narrowing along an extends chain: `handler-bins/src/extends_chain.rs`

An item may extend a parent item, which may extend another, and the composer folds the
chain's `requires.capabilities` into the child's.  The tree has two parts, composed
independently against the first ancestor of the list that declares each:

* `declared` — self-asserted action authority, a list of capability patterns.  The child's list
  is *narrowed* against the ancestor's by dropping every pattern no ancestor pattern covers
  (`narrowCapabilities`, `capabilityCovers`); a child that omits it inherits the ancestor's.
* `manifest` — runtime authority, per-family lists of resources with operations.  A child that
  asks for anything the ancestor's does not grant fails (`manifestMissing`); a child that omits
  it inherits the ancestor's.

The ancestor list arrives in the order `resolve_extends_chain` pushes it: post-order, deepest
ancestor first and immediate parent last.

Values are `serde_json::Value`, whose maps keep their keys in order (`Json`).  The composer's
errors all carry the step `PipelineInit`, so the model keeps their messages only.
-/

namespace Ryeos.Handlers

open Ryeos

variable {N : Type}

/-! ## Patterns -/

/-- `capability_covers`: equal strings, or the granted pattern, compiled to an anchored regular
expression with `*` as `.*` and `?` as `.`, matches the child as a text. -/
def capabilityCovers (granted child : String) : Bool :=
  granted == child || globMatch granted.toList child.toList

/-- `narrow_capabilities`: the child capabilities some parent capability covers, in the child's
order and with its duplicates. -/
def narrowCapabilities (childCaps parentCaps : List String) : List String :=
  childCaps.filter fun child => parentCaps.any fun parent => capabilityCovers parent child

/-- `authoring_namespace_covers`: an identical pattern covers anything; otherwise a child with a
wildcard is never covered, and a concrete child is covered when the parent glob matches it. -/
def authoringNamespaceCovers (parent child : String) : Bool :=
  if parent = child then true
  else if child.toList.contains '*' || child.toList.contains '?' then false
  else globMatch parent.toList child.toList

/-! ## Reading the `requires` tree -/

/-- `declared_value`: `requires.capabilities.declared` when present and not null. -/
def declaredValue (parsed : Json N) : Option (Json N) :=
  (((parsed.get "requires").bind (Json.get "capabilities")).bind (Json.get "declared")).filter
    fun v => !v.isNull

/-- `capability_subtree`: `requires.capabilities.<sub>` when it is a mapping. -/
def capabilitySubtree (parsed : Json N) (sub : String) : Option (List (String × Json N)) :=
  (((parsed.get "requires").bind (Json.get "capabilities")).bind (Json.get sub)).bind Json.asObject

/-- `manifest_value`: `requires.capabilities.manifest` when present and not null. -/
def manifestValue (parsed : Json N) : Option (Json N) :=
  (((parsed.get "requires").bind (Json.get "capabilities")).bind (Json.get "manifest")).filter
    fun v => !v.isNull

/-- `string_array`: the strings of an array, skipping other items. -/
def stringArray (v : Json N) : List String :=
  ((v.asArray.map fun items => items.filterMap Json.asStr)).getD []

/-- Unicode `White_Space`, which `str::trim` strips. -/
def isUnicodeWhitespace (c : Char) : Bool :=
  c.toNat ∈ [0x09, 0x0A, 0x0B, 0x0C, 0x0D, 0x20, 0x85, 0xA0, 0x1680, 0x2000, 0x2001, 0x2002,
    0x2003, 0x2004, 0x2005, 0x2006, 0x2007, 0x2008, 0x2009, 0x200A, 0x2028, 0x2029, 0x202F,
    0x205F, 0x3000]

/-- `s.trim().is_empty()`. -/
def trimIsEmpty (s : String) : Bool := s.toList.all isUnicodeWhitespace

/-! ## Shape checks -/

/-- `reject_legacy_permissions`: a top-level `permissions:` block fails. -/
def rejectLegacyPermissions (parsed : Json N) : Except String Unit :=
  if ((parsed.get "permissions").map fun v => !v.isNull).getD false then
    .error ("top-level `permissions:` is removed — declare action authority as a flat list " ++
      "under `requires.capabilities.declared`")
  else .ok ()

/-- The first key of a member list outside `allowed`. -/
def unknownKey (fields : List (String × Json N)) (allowed : List String) : Option String :=
  (fields.find? fun f => !allowed.contains f.1).map (·.1)

/-- `validate_requires_shape`: `requires` has only `capabilities`, which has only `declared`
and `manifest`. -/
def validateRequiresShape (parsed : Json N) : Except String Unit :=
  match (parsed.get "requires").filter (fun v => !v.isNull) with
  | none => .ok ()
  | some requires =>
    match requires.asObject with
    | none => .error "`requires` must be a mapping"
    | some reqMap =>
      match unknownKey reqMap ["capabilities"] with
      | some key => .error s!"unknown key `requires.{key}` (only `capabilities` is allowed)"
      | none =>
        match ((Json.object reqMap).get "capabilities").filter (fun v => !v.isNull) with
        | none => .ok ()
        | some caps =>
          match caps.asObject with
          | none => .error "`requires.capabilities` must be a mapping"
          | some capsMap =>
            match unknownKey capsMap ["declared", "manifest"] with
            | some key => .error (s!"unknown key `requires.capabilities.{key}` " ++
                "(only `declared` and `manifest` are allowed)")
            | none => .ok ()

/-- `validate_declared_shape`: a list of strings. -/
def validateDeclaredShape (declared : Json N) : Except String Unit :=
  match declared.asArray with
  | none => .error "`requires.capabilities.declared` must be a list of cap strings"
  | some items =>
    if items.any fun v => v.asStr.isNone then
      .error "`requires.capabilities.declared` must contain only strings"
    else .ok ()

/-- `ManifestFamily`: a runtime-authority family; `ops = none` is the pattern-based family. -/
structure ManifestFamily where
  key : String
  idKey : String
  ops : Option (List String)

/-- `RUNTIME_AUTHORITY_FAMILIES`. -/
def runtimeAuthorityFamilies : List ManifestFamily :=
  [⟨"bundle_events", "event_kind", some ["append", "scan"]⟩,
   ⟨"runtime_vault", "namespace", some ["put", "get", "delete", "list"]⟩,
   ⟨"item_authoring", "kind", none⟩]

/-- `validate_item_authoring_entries`: each entry a mapping with exactly non-blank string
`kind` and `namespace`. -/
def validateItemAuthoringEntries (list : Option (Json N)) (tag : String) : Except String Unit :=
  match list with
  | none => .ok ()
  | some value =>
    match value.asArray with
    | none => .error s!"`requires.capabilities.manifest.runtime_authority.{tag}` must be a list"
    | some arr => arr.forM fun entry =>
      match entry.asObject with
      | none => .error s!"each `{tag}` entry must be a mapping"
      | some obj =>
        match unknownKey obj ["kind", "namespace"] with
        | some k => .error s!"unknown key `{k}` in an `{tag}` entry (allowed: `kind`, `namespace`)"
        | none => ["kind", "namespace"].forM fun reqKey =>
          match ((Json.object obj).get reqKey).bind Json.asStr with
          | none => .error s!"a `{tag}` entry is missing a string `{reqKey}`"
          | some v => if trimIsEmpty v then .error s!"a `{tag}` entry has an empty `{reqKey}`"
            else .ok ()

/-- `validate_manifest_resources`: each entry a mapping with a non-blank string id and a
non-empty list of known operations. -/
def validateManifestResources (list : Option (Json N)) (idKey : String) (validOps : List String)
    (tag : String) : Except String Unit :=
  match list with
  | none => .ok ()
  | some value =>
    match value.asArray with
    | none => .error s!"`requires.capabilities.manifest.runtime_authority.{tag}` must be a list"
    | some arr => arr.forM fun entry =>
      match entry.asObject with
      | none => .error s!"each `{tag}` entry must be a mapping"
      | some obj =>
        match unknownKey obj [idKey, "operations"] with
        | some k =>
          .error s!"unknown key `{k}` in a `{tag}` entry (allowed: `{idKey}`, `operations`)"
        | none =>
          match ((Json.object obj).get idKey).bind Json.asStr with
          | none => .error s!"a `{tag}` entry is missing a string `{idKey}`"
          | some id =>
            if trimIsEmpty id then .error s!"a `{tag}` entry has an empty `{idKey}`"
            else
              match ((Json.object obj).get "operations").bind Json.asArray with
              | none => .error s!"`{tag}` entry `{id}` must list `operations` as an array"
              | some ops =>
                if ops.isEmpty then .error s!"`{tag}` entry `{id}` must list at least one operation"
                else ops.forM fun op =>
                  match op.asStr with
                  | none => .error s!"`{tag}` operations must be strings"
                  | some opStr =>
                    let allowed := String.intercalate ", " validOps
                    if validOps.contains opStr then .ok ()
                    else .error s!"invalid operation `{opStr}` for `{tag}` (allowed: {allowed})"

/-- `validate_manifest_shape`: only `runtime_authority`, with only the known families, each of
the right shape. -/
def validateManifestShape (manifest : Json N) : Except String Unit :=
  match manifest.asObject with
  | none => .error "`requires.capabilities.manifest` must be a mapping"
  | some map =>
    match unknownKey map ["runtime_authority"] with
    | some key => .error (s!"unknown key `requires.capabilities.manifest.{key}` " ++
        "(only `runtime_authority` is allowed)")
    | none =>
      match ((Json.object map).get "runtime_authority").filter (fun v => !v.isNull) with
      | none => .ok ()
      | some runtimeAuthority =>
        match runtimeAuthority.asObject with
        | none => .error "`requires.capabilities.manifest.runtime_authority` must be a mapping"
        | some raMap =>
          let allowed := String.intercalate ", " (runtimeAuthorityFamilies.map (·.key))
          match unknownKey raMap (runtimeAuthorityFamilies.map (·.key)) with
          | some key => .error (s!"unknown key `requires.capabilities.manifest.runtime_authority.{key}` " ++
              s!"(allowed: {allowed})")
          | none => runtimeAuthorityFamilies.forM fun family =>
            match family.ops with
            | some ops => validateManifestResources ((Json.object raMap).get family.key)
                family.idKey ops family.key
            | none => validateItemAuthoringEntries ((Json.object raMap).get family.key) family.key

/-! ## Composition -/

/-- `compose_declared`: the child's list narrowed against the first declaring ancestor's,
inherited verbatim when the child omits it. -/
def composeDeclared (rootParsed : Json N) (ancestorParsed : List (Json N)) :
    Except String (Option (Json N)) :=
  match declaredValue rootParsed, ancestorParsed.findSome? declaredValue with
  | none, none => .ok none
  | none, some p => do validateDeclaredShape p; return some p
  | some c, none => do validateDeclaredShape c; return some c
  | some c, some p => do
    validateDeclaredShape c
    validateDeclaredShape p
    let narrowed := narrowCapabilities (stringArray c) (stringArray p)
    return some (.array (narrowed.map .string))

/-- `operation_set`: the string operations of a requirement entry, as a set. -/
def operationSet (entry : Json N) : List String :=
  ((((entry.get "operations").bind Json.asArray).map fun a => a.filterMap Json.asStr).getD
    []).dedup

/-- `parent_index.get(id)`: the operations of the parent entry with this id.  The index is
collected into a hash map, so of several entries with one id the last wins. -/
def parentOps (parentArr : List (Json N)) (idKey id : String) : Option (List String) :=
  (parentArr.filterMap fun entry =>
    ((entry.get idKey).bind Json.asStr).map fun i => (i, operationSet entry)).reverse.find?
    (·.1 = id) |>.map (·.2)

/-- `collect_missing_resource_requirements`: `tag.id.op` for every child operation the parent
entry with the same id does not grant. -/
def collectMissingResourceRequirements (child parent : Option (Json N)) (idKey tag : String) :
    List String :=
  match child.bind Json.asArray with
  | none => []
  | some childArr =>
    let parentArr := (parent.bind Json.asArray).getD []
    childArr.flatMap fun entry =>
      match (entry.get idKey).bind Json.asStr with
      | none => []
      | some id =>
        let granted := (parentOps parentArr idKey id).getD []
        ((operationSet entry).filter fun op => !granted.contains op).map
          fun op => s!"{tag}.{id}.{op}"

/-- `collect_missing_authoring_requirements`: `tag.kind.namespace` for every child entry no
parent entry of the same kind covers. -/
def collectMissingAuthoringRequirements (child parent : Option (Json N)) (tag : String) :
    List String :=
  match child.bind Json.asArray with
  | none => []
  | some childArr =>
    childArr.flatMap fun entry =>
      match (entry.get "kind").bind Json.asStr, (entry.get "namespace").bind Json.asStr with
      | some kind, some childNs =>
        let covered := ((parent.bind Json.asArray).map fun arr => arr.any fun parentEntry =>
          ((parentEntry.get "kind").bind Json.asStr) == some kind &&
            ((((parentEntry.get "namespace").bind Json.asStr).map fun parentNs =>
              authoringNamespaceCovers parentNs childNs).getD false)).getD false
        if covered then [] else [s!"{tag}.{kind}.{childNs}"]
      | _, _ => []

/-- `manifest_missing`: every child requirement the parent does not grant, sorted. -/
def manifestMissing (child parent : List (String × Json N)) : List String :=
  let childRa := (Json.object child).get "runtime_authority"
  let parentRa := (Json.object parent).get "runtime_authority"
  let missing := runtimeAuthorityFamilies.flatMap fun family =>
    let childFamily := childRa.bind (Json.get family.key)
    let parentFamily := parentRa.bind (Json.get family.key)
    match family.ops with
    | some _ =>
      collectMissingResourceRequirements childFamily parentFamily family.idKey family.key
    | none => collectMissingAuthoringRequirements childFamily parentFamily family.key
  missing.insertionSort fun a b => decide (a ≤ b)

/-- `compose_manifest`: the child's mapping when it is within the first declaring ancestor's,
failing on a widening; inherited verbatim when the child omits it. -/
def composeManifest (rootParsed : Json N) (ancestorParsed : List (Json N)) :
    Except String (Option (Json N)) :=
  match capabilitySubtree rootParsed "manifest",
      ancestorParsed.findSome? fun p => capabilitySubtree p "manifest" with
  | none, none => .ok none
  | none, some p => .ok (some (.object p))
  | some c, none => .ok (some (.object c))
  | some c, some p =>
    let missing := manifestMissing c p
    if missing.isEmpty then .ok (some (.object c))
    else
      let listed := String.intercalate ", " missing
      .error s!"requires.capabilities.manifest.runtime_authority widens parent requirement: {listed}"

/-- The shape checks `narrow_requires_capabilities` runs on one parsed item. -/
def validateItemRequires (parsed : Json N) : Except String Unit := do
  rejectLegacyPermissions parsed
  validateRequiresShape parsed
  match manifestValue parsed with
  | some m => validateManifestShape m
  | none => pure ()

/-- `narrow_requires_capabilities`: strict shape checks on the root and every ancestor, then
`declared` and `manifest` composed independently into `field` of the composed item. -/
def narrowRequiresCapabilities (field : String) (composed : Json N)
    (ancestorParsed : List (Json N)) (rootParsed : Json N) : Except String (Json N) := do
  validateItemRequires rootParsed
  ancestorParsed.forM validateItemRequires
  let declared ← composeDeclared rootParsed ancestorParsed
  let manifest ← composeManifest rootParsed ancestorParsed
  let capabilities : List (String × Json N) :=
    (match declared with | some d => [("declared", d)] | none => []) ++
    (match manifest with | some m => [("manifest", m)] | none => [])
  match composed with
  | .object obj =>
    if capabilities.isEmpty then return .object (Json.removeField field obj)
    else return .object (Json.insertField field (.object [("capabilities", .object capabilities)]) obj)
  | other => return other

/-! ## Narrowing against the resolved chain

`compose_declared` and `compose_manifest` read "the nearest ancestor declaring" each part as the
first of the list that declares it, and the handler's tests feed the list nearest first.  The
resolver pushes it deepest first (`resolve_extends_chain_lists_ancestors_deepest_first`), so on a
resolved chain the first declaring ancestor is the deepest one, and the immediate parent is
never consulted while a deeper ancestor declares.
-/

/-- An item extending `parent`, when it names one, whose `requires.capabilities` declares the
patterns `caps` and asks, under `runtime_authority.bundle_events`, for the operations `ops` on
the event kind `e`. -/
def chainItem (parent : Option String) (caps ops : List String) : Json ℕ :=
  .object ((parent.map fun p => [("extends", .string p)]).getD [] ++
    [("requires", .object [("capabilities", .object
      [("declared", .array (caps.map .string)),
       ("manifest", .object [("runtime_authority", .object [("bundle_events", .array
          [.object [("event_kind", .string "e"), ("operations", .array (ops.map .string))]])])])])])])

/-- The chain root → `parent` → `grandparent`: the root asks for `cap.b` and to append and scan
`e`, the parent grants `cap.a` and appending `e`, the grandparent `cap.*` and both operations. -/
def capabilityChain : Resolution.ItemSource ℕ :=
  .ofTable [("directive:parent", chainItem (some "grandparent") ["cap.a"] ["append"]),
    ("directive:grandparent", chainItem none ["cap.*"] ["append", "scan"])]

/-- The manifest `chainItem` asks for `ops` with. -/
def chainManifest (ops : List String) : List (String × Json ℕ) :=
  [("runtime_authority", .object [("bundle_events", .array
    [.object [("event_kind", .string "e"), ("operations", .array (ops.map .string))]])])]

theorem narrowing_skips_nearest_declaring_ancestor :
    let root : Json ℕ := chainItem (some "parent") ["cap.b"] ["append", "scan"]
    let parent : Json ℕ := chainItem (some "grandparent") ["cap.a"] ["append"]
    let grandparent : Json ℕ := chainItem none ["cap.*"] ["append", "scan"]
    -- the resolver hands the composer the grandparent first
    ((Resolution.run capabilityChain "extends" 8 ⟨"directive", "root", none⟩
        ⟨"directive:root", root⟩ ⟨[], [], [], []⟩).toOption.map (·.ancestorParsed) =
      some [grandparent, parent]) ∧
    -- narrowing in that order keeps `cap.b` and the root's manifest as they are
    narrowRequiresCapabilities "requires" root [grandparent, parent] root = .ok root ∧
    -- though the parent declares `cap.a` only, which does not cover `cap.b`, and grants appending
    -- `e` only
    declaredValue parent = some (.array [.string "cap.a"]) ∧
      capabilityCovers "cap.a" "cap.b" = false ∧
      capabilitySubtree parent "manifest" = some (chainManifest ["append"]) ∧
      manifestMissing (chainManifest ["append", "scan"]) (chainManifest ["append"]) =
        ["bundle_events.e.scan"] ∧
    -- nearest first, as the handler's documentation and tests read it, the composition fails
    narrowRequiresCapabilities "requires" root [parent, grandparent] root =
      .error ("requires.capabilities.manifest.runtime_authority widens parent requirement: " ++
        "bundle_events.e.scan") ∧
    -- and beside it: a wildcard kept as a text covers what the ancestor does not
    narrowRequiresCapabilities "requires" (chainItem none ["cap.*"] ["append"])
        [chainItem none ["cap.?"] ["append"]] (chainItem none ["cap.*"] ["append"]) =
      .ok (chainItem none ["cap.*"] ["append"]) ∧
      capabilityCovers "cap.*" "cap.ab" = true ∧ capabilityCovers "cap.?" "cap.ab" = false := by
  intro root parent grandparent
  refine ⟨by decide +kernel, by decide, rfl, by decide, rfl, by decide, by decide, by decide,
    by decide, by decide⟩

end Ryeos.Handlers
