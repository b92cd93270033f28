import Mathlib
import Ryeos.Core.Json

/-!
# Resolving an extends chain: `ryeos-engine/src/resolution/steps/extends.rs`

An item names its parent in one string field (`extends`), the parent names its own, and so on.
`resolve_extends_chain` walks that chain from the root item and collects the ancestors the kind's
composer then folds into the root.  Each hop expands an `@alias` (`AliasResolver::resolve`),
promotes a bare id to a canonical ref of the asking item's kind (`ensure_canonical`), parses and
loads the item, and recurses into its own parent *before* pushing itself: the push is post-order,
so the ancestor list comes out deepest ancestor first and immediate parent last.

Cycles are caught on source paths with two sets, `visiting_extends` (the recursion stack, the
root on it from the start) and `done_extends` (finished subtrees); the depth is bounded by
`max_depth`.

The model keeps the resolution context's four fields the step reads and writes, with the two
path sets as lists (`List.insert`, `List.erase`).  Parsing a canonical ref and loading an item
(the file system, the signature check, the kind's parser) are outside the step: they are the
fields `parseRef` and `loadItem` of an `ItemSource`.  A failed step aborts the whole resolution,
so the model returns the error and drops the context.

The main result, `resolve_extends_chain_lists_ancestors_deepest_first`, says what a run over a
linear chain returns: the chain's ancestors reversed.
-/

namespace Ryeos.Resolution

open Ryeos

variable {N : Type}

/-! ## Errors and records -/

/-- `ResolutionStepName`. -/
inductive ResolutionStepName
  | pipelineInit
  | resolveExtendsChain
  | resolveReferences
  deriving DecidableEq, Repr

/-- `ResolutionFailureClass`. -/
inductive ResolutionFailureClass
  | invalidDefinition
  | dependencyUnavailable
  | internalInvariant
  deriving DecidableEq, Repr

/-- `AliasHop`: the chain of alias expansions and the depth it used. -/
structure AliasHop where
  expansion : List String
  depth : ℕ
  deriving DecidableEq, Repr

/-- `ResolvedAncestor`, with the fields the walk fills from the hop; the fields it copies from
the loaded item unread (space, trust class, content and digests) are left out. -/
structure ResolvedAncestor where
  requestedId : String
  resolvedRef : String
  sourcePath : String
  aliasResolution : Option AliasHop
  addedBy : ResolutionStepName
  deriving DecidableEq, Repr

/-- `ResolutionError`, with the variants resolution raises before composing. -/
inductive ResolutionError
  | cycleDetected (chain : List ResolvedAncestor) (edgeType : String)
  | maxDepthExceeded (step : ResolutionStepName) (depth : ℕ)
  | aliasMaxDepthExceeded (aliasName : String) (expansion : List String)
  | aliasCycle (expansion : List String)
  | unknownAlias (aliasName kind : String)
  | missingItem (itemRef referencedBy : String)
  | integrityFailure (itemRef reason : String)
  | metadataAnchoringFailed (itemRef source : String)
  | stepFailed (step : ResolutionStepName) (failureClass : ResolutionFailureClass)
      (reason : String)
  deriving DecidableEq, Repr

/-! ## Aliases and canonical refs -/

/-- `s.starts_with('@')`. -/
def startsWithAt (s : String) : Bool := s.toList.head? == some '@'

/-- `AliasResolver`: the kind's alias table and the expansion depth limit. -/
structure AliasResolver where
  aliases : String → Option String
  maxDepth : ℕ

/-- The loop of `AliasResolver::resolve` for `id`, at `current` with `remaining` lookups left,
so at `depth = max_depth - remaining`. -/
def AliasResolver.expand (r : AliasResolver) (id kindName : String) :
    ℕ → List String → List String → String → Except ResolutionError (String × Option AliasHop)
  | remaining, expansion, seen, current =>
    if current ∈ seen then .error (.aliasCycle (expansion ++ [current]))
    else if !startsWithAt current then
      .ok (current, some ⟨expansion ++ [current], r.maxDepth - remaining⟩)
    else
      match remaining with
      -- `depth >= self.max_depth`
      | 0 => .error (.aliasMaxDepthExceeded id (expansion ++ [current]))
      | remaining + 1 =>
        match r.aliases current with
        | some next => r.expand id kindName remaining (expansion ++ [current]) (current :: seen) next
        | none => .error (.unknownAlias current kindName)

/-- `AliasResolver::resolve`: a non-alias as it is, an alias expanded to its first non-alias. -/
def AliasResolver.resolve (r : AliasResolver) (id kindName : String) :
    Except ResolutionError (String × Option AliasHop) :=
  if !startsWithAt id then .ok (id, none)
  else r.expand id kindName r.maxDepth [] [] id

/-- `ensure_canonical`: a bare id becomes a ref of the default kind. -/
def ensureCanonical (id defaultKind : String) : String :=
  if startsWithAt id || id.toList.contains ':' then id
  else defaultKind ++ ":" ++ id

/-- `CanonicalRef`, with its suffix as `Display` writes it after the `@`. -/
structure CanonicalRef where
  kind : String
  bareId : String
  suffix : Option String
  deriving DecidableEq, Repr

/-- `CanonicalRef`'s `Display`. -/
def CanonicalRef.toString (r : CanonicalRef) : String :=
  r.kind ++ ":" ++ r.bareId ++ (r.suffix.map ("@" ++ ·)).getD ""

/-! ## Loading -/

/-- `LoadedItem`, with the source path and the parsed metadata the step reads. -/
structure LoadedItem (N : Type) where
  sourcePath : String
  parsed : Json N

/-- `LoadedItem::into_ancestor`. -/
def LoadedItem.intoAncestor (item : LoadedItem N) (requestedId resolvedRef : String)
    (aliasResolution : Option AliasHop) (addedBy : ResolutionStepName) : ResolvedAncestor :=
  ⟨requestedId, resolvedRef, item.sourcePath, aliasResolution, addedBy⟩

/-- What resolution reads an item through: the kind's aliases, `CanonicalRef::parse` (failing
with its error's text) and `ResolutionContext::load_item`. -/
structure ItemSource (N : Type) where
  aliases : AliasResolver
  parseRef : String → Except String CanonicalRef
  loadItem : CanonicalRef → String → ResolutionStepName → Except ResolutionError (LoadedItem N)

/-- `other_type`: the name of a value's kind. -/
def otherType : Json N → String
  | .null => "null"
  | .bool _ => "bool"
  | .number _ => "number"
  | .string _ => "string"
  | .array _ => "array"
  | .object _ => "object"

/-- `field_as_string`: an absent field is no parent, a string names one, anything else fails. -/
def fieldAsString (parsed : Json N) (field : String) : Except ResolutionError (Option String) :=
  match parsed.get field with
  | none => .ok none
  | some (.string s) => .ok (some s)
  | some .null => .error (.stepFailed .resolveExtendsChain .invalidDefinition
      s!"field `{field}` is explicitly null; omit the field instead of declaring it null")
  | some (.array _) => .error (.stepFailed .resolveExtendsChain .invalidDefinition
      (s!"field `{field}` must be a single string; multi-parent extends " ++
        "is deferred to the advanced resolution path"))
  | some other =>
    let got := otherType other
    .error (.stepFailed .resolveExtendsChain .invalidDefinition
      s!"field `{field}` must be a string; got {got}")

/-! ## The walk -/

/-- The part of `ResolutionContext` the extends step reads and writes. -/
structure ExtendsState (N : Type) where
  visitingExtends : List String
  doneExtends : List String
  ancestors : List ResolvedAncestor
  ancestorParsed : List (Json N)

/-- The error `walk` maps a canonical-ref parse failure to. -/
def invalidCanonicalRef (canonical e : String) : ResolutionError :=
  .stepFailed .resolveExtendsChain .invalidDefinition s!"invalid canonical ref `{canonical}`: {e}"

/-- The end of a hop once its parent is resolved: pop it off the stack, mark it done and push it
with its parsed value, in lockstep. -/
def ExtendsState.push (ctx : ExtendsState N) (path : String) (ancestor : ResolvedAncestor)
    (parsed : Json N) : ExtendsState N :=
  { visitingExtends := ctx.visitingExtends.erase path
    doneExtends := ctx.doneExtends.insert path
    ancestors := ctx.ancestors ++ [ancestor]
    ancestorParsed := ctx.ancestorParsed ++ [parsed] }

/-- `walk`: the hop to `requestedId`, asked for by an item of kind `parentKind`, at `depth`.
The first argument is `max_depth + 1 - depth`, the hops left before `depth > max_depth`. -/
def walk (src : ItemSource N) (field : String) :
    ℕ → String → String → ℕ → ExtendsState N → Except ResolutionError (ExtendsState N)
  | 0, _, _, depth, _ => .error (.maxDepthExceeded .resolveExtendsChain depth)
  | budget + 1, requestedId, parentKind, depth, ctx => do
    let expanded ← src.aliases.resolve requestedId parentKind
    let canonical := ensureCanonical expanded.1 parentKind
    let ref ← (src.parseRef canonical).mapError (invalidCanonicalRef canonical)
    let loaded ← src.loadItem ref requestedId .resolveExtendsChain
    let ancestor := loaded.intoAncestor requestedId ref.toString expanded.2 .resolveExtendsChain
    -- a path on the recursion stack closes a cycle; a finished one was already pushed
    if loaded.sourcePath ∈ ctx.visitingExtends then
      .error (.cycleDetected [ancestor] "extends")
    else if loaded.sourcePath ∈ ctx.doneExtends then .ok ctx
    else do
      let ctx := { ctx with visitingExtends := ctx.visitingExtends.insert loaded.sourcePath }
      let grandparent ← fieldAsString loaded.parsed field
      -- recurse before pushing self: post-order
      let ctx ← match grandparent with
        | some grandparentId => walk src field budget grandparentId ref.kind (depth + 1) ctx
        | none => pure ctx
      return ctx.push loaded.sourcePath ancestor loaded.parsed

/-- `run`: the root on the recursion stack while its parent, if it names one, is walked from
depth 1. -/
def run (src : ItemSource N) (field : String) (maxDepth : ℕ) (rootRef : CanonicalRef)
    (root : LoadedItem N) (ctx : ExtendsState N) : Except ResolutionError (ExtendsState N) := do
  let parentId ← fieldAsString root.parsed field
  let ctx := { ctx with visitingExtends := ctx.visitingExtends.insert root.sourcePath }
  let ctx ← match parentId with
    | some parentId => walk src field maxDepth parentId rootRef.kind 1 ctx
    | none => pure ctx
  return { ctx with visitingExtends := ctx.visitingExtends.erase root.sourcePath }

/-! ## Runs over a linear chain

A chain of distinct items, each naming the next in `field` and the last naming none, is walked
hop by hop: each hop is fresh, so it is pushed after its parent's subtree, and the stack is
back where it was when the hop returns (`walk_isChain`).  Walked from the root, the chain's
ancestors come out reversed, the deepest first, or the walk stops at the first hop past the
depth limit (`walk_isChain_of_lt`).
-/

/-- One hop of a chain: the id asked for, its alias expansion, its ref and the loaded item. -/
structure Hop (N : Type) where
  requestedId : String
  aliasHop : Option AliasHop
  ref : CanonicalRef
  loaded : LoadedItem N

/-- The ancestor `walk` pushes for a hop. -/
def Hop.ancestor (h : Hop N) : ResolvedAncestor :=
  h.loaded.intoAncestor h.requestedId h.ref.toString h.aliasHop .resolveExtendsChain

/-- The source path of a hop's item. -/
def Hop.path (h : Hop N) : String := h.loaded.sourcePath

/-- `src` resolves the hop's id, asked for by an item of kind `parentKind`, to the hop's alias
expansion, ref and item. -/
def ItemSource.Locates (src : ItemSource N) (parentKind : String) (h : Hop N) : Prop :=
  ∃ afterAlias, src.aliases.resolve h.requestedId parentKind = .ok (afterAlias, h.aliasHop) ∧
    src.parseRef (ensureCanonical afterAlias parentKind) = .ok h.ref ∧
    src.loadItem h.ref h.requestedId .resolveExtendsChain = .ok h.loaded

/-- `hops` is the chain reached from an item of kind `kind` whose `field` is `next`: each hop is
located from the kind of the one before, and names the next, the last naming none. -/
inductive IsChain (src : ItemSource N) (field : String) :
    String → Option String → List (Hop N) → Prop
  | nil (kind : String) : IsChain src field kind none []
  | cons {kind : String} {h : Hop N} {next : Option String} {rest : List (Hop N)} :
      src.Locates kind h → fieldAsString h.loaded.parsed field = .ok next →
      IsChain src field h.ref.kind next rest →
      IsChain src field kind (some h.requestedId) (h :: rest)

lemma IsChain.eq_nil {src : ItemSource N} {field kind : String} {hops : List (Hop N)}
    (hc : IsChain src field kind none hops) : hops = [] := by
  cases hc
  rfl

/-- What walking a chain leaves behind: each hop marked done and pushed, the deepest first. -/
def ExtendsState.record (ctx : ExtendsState N) : List (Hop N) → ExtendsState N
  | [] => ctx
  | h :: rest =>
    let ctx' := ctx.record rest
    { ctx' with
      doneExtends := ctx'.doneExtends.insert h.path
      ancestors := ctx'.ancestors ++ [h.ancestor]
      ancestorParsed := ctx'.ancestorParsed ++ [h.loaded.parsed] }

@[simp] lemma ExtendsState.record_visitingExtends (ctx : ExtendsState N) (hops : List (Hop N)) :
    (ctx.record hops).visitingExtends = ctx.visitingExtends := by
  induction hops with
  | nil => rfl
  | cons h rest ih => simp [record, ih]

@[simp] lemma ExtendsState.record_ancestors (ctx : ExtendsState N) (hops : List (Hop N)) :
    (ctx.record hops).ancestors = ctx.ancestors ++ (hops.map Hop.ancestor).reverse := by
  induction hops with
  | nil => simp [record]
  | cons h rest ih => simp [record, ih]

@[simp] lemma ExtendsState.record_ancestorParsed (ctx : ExtendsState N) (hops : List (Hop N)) :
    (ctx.record hops).ancestorParsed =
      ctx.ancestorParsed ++ (hops.map (·.loaded.parsed)).reverse := by
  induction hops with
  | nil => simp [record]
  | cons h rest ih => simp [record, ih]

/-- Fresh distinct paths are marked done in front of the old ones, the nearest first. -/
lemma ExtendsState.record_doneExtends {ctx : ExtendsState N} {hops : List (Hop N)}
    (hnodup : (hops.map Hop.path).Nodup) (hfresh : ∀ p ∈ hops.map Hop.path, p ∉ ctx.doneExtends) :
    (ctx.record hops).doneExtends = hops.map Hop.path ++ ctx.doneExtends := by
  induction hops with
  | nil => rfl
  | cons h rest ih =>
    rw [List.map_cons, List.nodup_cons] at hnodup
    have hrest := ih hnodup.2 fun p hp => hfresh p (List.mem_cons_of_mem _ hp)
    have hnew : h.path ∉ (ctx.record rest).doneExtends := by
      rw [hrest, List.mem_append, not_or]
      exact ⟨hnodup.1, hfresh _ List.mem_cons_self⟩
    simp only [record]
    rw [List.insert_of_not_mem hnew, hrest, List.map_cons, List.cons_append]

/-- The stack is not recorded: walking a chain from another stack records the same. -/
lemma ExtendsState.record_with_visiting (ctx : ExtendsState N) (visiting : List String)
    (hops : List (Hop N)) :
    ({ ctx with visitingExtends := visiting } : ExtendsState N).record hops =
      { ctx.record hops with visitingExtends := visiting } := by
  induction hops with
  | nil => rfl
  | cons h rest ih => simp only [record, ih]

section Walk

variable {src : ItemSource N} {field parentKind : String} {h : Hop N} {budget depth : ℕ}
  {ctx : ExtendsState N}

/-- A located hop whose item names no parent is pushed at once. -/
lemma walk_succ_of_none (hloc : src.Locates parentKind h) (hvisit : h.path ∉ ctx.visitingExtends)
    (hdone : h.path ∉ ctx.doneExtends) (hnext : fieldAsString h.loaded.parsed field = .ok none) :
    walk src field (budget + 1) h.requestedId parentKind depth ctx =
      .ok (({ ctx with visitingExtends := ctx.visitingExtends.insert h.path } : ExtendsState N).push
        h.path h.ancestor h.loaded.parsed) := by
  obtain ⟨afterAlias, hresolve, hparse, hload⟩ := hloc
  simp only [Hop.path] at hvisit hdone
  simp [walk, hresolve, hparse, hload, hvisit, hdone, hnext, Except.mapError, Hop.ancestor,
    Hop.path, bind, Except.bind, pure, Except.pure]

/-- A located hop whose item names a parent is pushed after its parent is walked, one level
deeper and with the hop on the stack. -/
lemma walk_succ_of_some {grandparent : String} (hloc : src.Locates parentKind h)
    (hvisit : h.path ∉ ctx.visitingExtends) (hdone : h.path ∉ ctx.doneExtends)
    (hnext : fieldAsString h.loaded.parsed field = .ok (some grandparent)) :
    walk src field (budget + 1) h.requestedId parentKind depth ctx =
      (walk src field budget grandparent h.ref.kind (depth + 1)
        { ctx with visitingExtends := ctx.visitingExtends.insert h.path }).map
        fun ctx' => ctx'.push h.path h.ancestor h.loaded.parsed := by
  obtain ⟨afterAlias, hresolve, hparse, hload⟩ := hloc
  simp only [Hop.path] at hvisit hdone
  simp [walk, hresolve, hparse, hload, hvisit, hdone, hnext, Except.mapError, Hop.ancestor,
    Hop.path, bind, Except.bind, pure, Except.pure, Except.map]

end Walk

/-- Pushing a hop pushed onto a stack that did not hold it restores the stack and records it. -/
lemma ExtendsState.push_record {ctx : ExtendsState N} {h : Hop N} {rest : List (Hop N)}
    (hvisit : h.path ∉ ctx.visitingExtends) :
    (({ ctx with visitingExtends := ctx.visitingExtends.insert h.path } : ExtendsState N).record
      rest).push h.path h.ancestor h.loaded.parsed = ctx.record (h :: rest) := by
  rw [record_with_visiting]
  simp only [push, record, List.insert_of_not_mem hvisit, List.erase_cons_head]
  rw [record_visitingExtends]

/-- The rest of a fresh chain is fresh for the stack that also holds its first hop. -/
lemma fresh_tail {ctx : ExtendsState N} {h : Hop N} {rest : List (Hop N)}
    (hnew : h.path ∉ rest.map Hop.path)
    (hfresh : ∀ p ∈ (h :: rest).map Hop.path, p ∉ ctx.visitingExtends ∧ p ∉ ctx.doneExtends) :
    ∀ p ∈ rest.map Hop.path, p ∉ ctx.visitingExtends.insert h.path ∧ p ∉ ctx.doneExtends := by
  intro p hp
  have hne : p ≠ h.path := fun he => hnew (he ▸ hp)
  obtain ⟨hv, hd⟩ := hfresh p (List.mem_cons_of_mem _ hp)
  exact ⟨by simp [List.mem_insert_iff, hne, hv], hd⟩

/-- **A chain within the depth budget is walked to its end.**  By induction on the chain: each
hop is fresh, so it goes on the stack, its parent's hops are walked one level deeper, and it is
popped and pushed (`ExtendsState.push_record`). -/
lemma walk_isChain {src : ItemSource N} {field kind : String} {next : Option String}
    {hops : List (Hop N)} (hc : IsChain src field kind next hops) :
    ∀ {id : String} {budget depth : ℕ} {ctx : ExtendsState N}, next = some id →
      hops.length ≤ budget → (hops.map Hop.path).Nodup →
      (∀ p ∈ hops.map Hop.path, p ∉ ctx.visitingExtends ∧ p ∉ ctx.doneExtends) →
      walk src field budget id kind depth ctx = .ok (ctx.record hops) := by
  induction hc with
  | nil => intro id _ _ _ hnext; cases hnext
  | @cons kind h next rest hloc hfield hrest ih =>
    intro id budget depth ctx hid hlen hnodup hfresh
    cases hid
    obtain ⟨budget, rfl⟩ : ∃ b, budget = b + 1 := ⟨budget - 1, by simp at hlen; omega⟩
    rw [List.map_cons, List.nodup_cons] at hnodup
    obtain ⟨hvisit, hdone⟩ := hfresh h.path List.mem_cons_self
    cases next with
    | none =>
      rw [walk_succ_of_none hloc hvisit hdone hfield, hrest.eq_nil]
      exact congrArg Except.ok (@ExtendsState.push_record N ctx h [] hvisit)
    | some grandparent =>
      rw [walk_succ_of_some hloc hvisit hdone hfield,
        ih rfl (by simp at hlen; omega) hnodup.2 (fresh_tail hnodup.1 hfresh)]
      exact congrArg Except.ok (ExtendsState.push_record hvisit)

/-- **A chain longer than the budget stops at the first hop past it**, at the depth that hop
has. -/
lemma walk_isChain_of_lt {src : ItemSource N} {field kind : String} {next : Option String}
    {hops : List (Hop N)} (hc : IsChain src field kind next hops) :
    ∀ {id : String} {budget depth : ℕ} {ctx : ExtendsState N}, next = some id →
      budget < hops.length → (hops.map Hop.path).Nodup →
      (∀ p ∈ hops.map Hop.path, p ∉ ctx.visitingExtends ∧ p ∉ ctx.doneExtends) →
      walk src field budget id kind depth ctx =
        .error (.maxDepthExceeded .resolveExtendsChain (depth + budget)) := by
  induction hc with
  | nil => intro id _ _ _ hnext; cases hnext
  | @cons kind h next rest hloc hfield hrest ih =>
    intro id budget depth ctx hid hlen hnodup hfresh
    cases hid
    cases budget with
    | zero => rfl
    | succ budget =>
      rw [List.map_cons, List.nodup_cons] at hnodup
      obtain ⟨hvisit, hdone⟩ := hfresh h.path List.mem_cons_self
      cases next with
      | none => simp [hrest.eq_nil] at hlen
      | some grandparent =>
        rw [walk_succ_of_some hloc hvisit hdone hfield,
          ih rfl (by simp at hlen; omega) hnodup.2 (fresh_tail hnodup.1 hfresh)]
        simp only [Except.map, Nat.add_right_comm depth 1 budget, Nat.add_assoc]

/-! ## From the root -/

/-- **`resolve_extends_chain` lists a linear chain deepest first.**  Take a root whose `field` is
`next`, the chain `hops` it reaches, all on distinct source paths, and a fresh context.  A chain
of at most `max_depth` hops is walked to its end: the stack is empty again, every hop is done,
and the ancestors, with their parsed values in lockstep, are the chain reversed, the deepest
first and the immediate parent last.  A longer chain fails at depth `max_depth + 1`. -/
theorem resolve_extends_chain_lists_ancestors_deepest_first {src : ItemSource N} {field : String}
    {maxDepth : ℕ} {rootRef : CanonicalRef} {root : LoadedItem N} {next : Option String}
    {hops : List (Hop N)} (hroot : fieldAsString root.parsed field = .ok next)
    (hchain : IsChain src field rootRef.kind next hops)
    (hpaths : (root.sourcePath :: hops.map Hop.path).Nodup) :
    (hops.length ≤ maxDepth → run src field maxDepth rootRef root ⟨[], [], [], []⟩ =
      .ok ⟨[], hops.map Hop.path, (hops.map Hop.ancestor).reverse,
        (hops.map (·.loaded.parsed)).reverse⟩) ∧
    (maxDepth < hops.length → run src field maxDepth rootRef root ⟨[], [], [], []⟩ =
      .error (.maxDepthExceeded .resolveExtendsChain (maxDepth + 1))) := by
  rw [List.nodup_cons] at hpaths
  -- the chain is fresh for the context with the root on the stack
  have hfresh : ∀ p ∈ hops.map Hop.path, p ∉ [root.sourcePath] ∧ p ∉ ([] : List String) :=
    fun p hp => ⟨fun he => hpaths.1 (List.mem_singleton.mp he ▸ hp), List.not_mem_nil⟩
  cases next with
  | none =>
    rw [hchain.eq_nil]
    simp [run, hroot, bind, Except.bind, pure, Except.pure]
  | some parentId =>
    -- the context once the root is on the stack
    let start : ExtendsState N := ⟨[root.sourcePath], [], [], []⟩
    constructor
    · intro hlen
      have hwalk : walk src field maxDepth parentId rootRef.kind 1 start = .ok (start.record hops) :=
        walk_isChain hchain rfl hlen hpaths.2 hfresh
      have hdone : (start.record hops).doneExtends = hops.map Hop.path ++ [] :=
        ExtendsState.record_doneExtends hpaths.2 fun p hp => (hfresh p hp).2
      simp [run, hroot, hwalk, hdone, start, bind, Except.bind, pure, Except.pure]
    · intro hlen
      have hwalk : walk src field maxDepth parentId rootRef.kind 1 start =
          .error (.maxDepthExceeded .resolveExtendsChain (1 + maxDepth)) :=
        walk_isChain_of_lt hchain rfl hlen hpaths.2 hfresh
      simp [run, hroot, hwalk, start, bind, Except.bind, Nat.add_comm]

/-- An item source over a fixed table of items keyed by canonical ref, with no aliases: a ref is
parsed at its first `:`, and an item is loaded from its ref's entry, with the ref as its path. -/
def ItemSource.ofTable (items : List (String × Json N)) : ItemSource N where
  aliases := ⟨fun _ => none, 0⟩
  parseRef canonical :=
    .ok ⟨String.ofList (canonical.toList.takeWhile (· != ':')),
      String.ofList ((canonical.toList.dropWhile (· != ':')).drop 1), none⟩
  loadItem ref referencedBy _ :=
    match items.lookup ref.toString with
    | some parsed => .ok ⟨ref.toString, parsed⟩
    | none => .error (.missingItem ref.toString referencedBy)

/-- A root extending `parent`, which extends `grandparent`: the run lists the grandparent first. -/
theorem resolve_extends_chain_lists_grandparent_first :
    let src : ItemSource ℕ := .ofTable
      [("directive:parent", .object [("extends", .string "grandparent")]),
       ("directive:grandparent", .object [])]
    let root : LoadedItem ℕ := ⟨"directive:root", .object [("extends", .string "parent")]⟩
    let parent : Hop ℕ := ⟨"parent", none, ⟨"directive", "parent", none⟩,
      ⟨"directive:parent", .object [("extends", .string "grandparent")]⟩⟩
    let grandparent : Hop ℕ := ⟨"grandparent", none, ⟨"directive", "grandparent", none⟩,
      ⟨"directive:grandparent", .object []⟩⟩
    (fieldAsString root.parsed "extends" = .ok (some "parent") ∧
      IsChain src "extends" "directive" (some "parent") [parent, grandparent] ∧
      (root.sourcePath :: [parent, grandparent].map Hop.path).Nodup) ∧
    ([parent, grandparent].length ≤ 8 →
      run src "extends" 8 ⟨"directive", "root", none⟩ root ⟨[], [], [], []⟩ =
        .ok ⟨[], [parent, grandparent].map Hop.path,
          ([parent, grandparent].map Hop.ancestor).reverse,
          ([parent, grandparent].map (·.loaded.parsed)).reverse⟩) ∧
    (8 < [parent, grandparent].length →
      run src "extends" 8 ⟨"directive", "root", none⟩ root ⟨[], [], [], []⟩ =
        .error (.maxDepthExceeded .resolveExtendsChain (8 + 1))) := by
  intro src root parent grandparent
  have hroot : fieldAsString root.parsed "extends" = .ok (some "parent") := rfl
  -- the alias step is evaluated on the literal ids, whose characters reduce; through the hops'
  -- projections they do not
  have hparentAlias : src.aliases.resolve "parent" "directive" = .ok ("parent", none) := rfl
  have hgrandparentAlias :
      src.aliases.resolve "grandparent" "directive" = .ok ("grandparent", none) := rfl
  have hparent : src.Locates "directive" parent := ⟨"parent", hparentAlias, rfl, rfl⟩
  have hgrandparent : src.Locates "directive" grandparent :=
    ⟨"grandparent", hgrandparentAlias, rfl, rfl⟩
  have hchain : IsChain src "extends" "directive" (some "parent") [parent, grandparent] :=
    .cons hparent rfl (.cons hgrandparent rfl (.nil _))
  have hpaths : (root.sourcePath :: [parent, grandparent].map Hop.path).Nodup := by decide
  exact ⟨⟨hroot, hchain, hpaths⟩,
    resolve_extends_chain_lists_ancestors_deepest_first hroot hchain hpaths⟩

end Ryeos.Resolution
