/-
# What a request reads as

Every branch of a request that is read is one node of a kind of its own, or the legs of a filter
aggregation, numbered along the labels that they share. The query stands outside the branches.
When no object of the request has a key twice, aggregations side by side have different names.
-/

import Mathlib.Data.List.Nodup
import Rollup.Request.Basic

namespace Rollup

/-- What a step gives whose result is changed was changed from a result. -/
theorem exists_ok_of_map {α β ε : Type} {x : Except ε α} {f : α → β} {b : β}
    (h : x.map f = .ok b) : ∃ a, x = .ok a ∧ f a = b := by
  cases x with
  | error e => cases h
  | ok a => exact ⟨a, rfl, Except.ok.inj h⟩

namespace Json

mutual

/-- Whether no object in a value has a key twice. -/
def hasDistinctKeys : Json → Bool
  | .object fields => decide (fields.map Prod.fst).Nodup && fieldsHaveDistinctKeys fields
  | .array items => itemsHaveDistinctKeys items
  | _ => true

def itemsHaveDistinctKeys : List Json → Bool
  | [] => true
  | item :: rest => hasDistinctKeys item && itemsHaveDistinctKeys rest

def fieldsHaveDistinctKeys : List (String × Json) → Bool
  | [] => true
  | (_, value) :: rest => hasDistinctKeys value && fieldsHaveDistinctKeys rest

end

end Json

namespace Branch

def name : Branch → String
  | node name _ _ => name

/-- What holds of an aggregation and of all below it. -/
inductive Everywhere (p : String → List Aggregation → List Branch → Prop) : Branch → Prop
  | node {name : String} {legs : List Aggregation} {children : List Branch}
      (here : p name legs children) (below : ∀ child ∈ children, Everywhere p child) :
      Everywhere p (.node name legs children)

theorem Everywhere.imp {p q : String → List Aggregation → List Branch → Prop} {branch : Branch}
    (h : branch.Everywhere p)
    (himp : ∀ name legs children, p name legs children → q name legs children) :
    branch.Everywhere q := by
  induction h with
  | node here _ ih => exact .node (himp _ _ _ here) ih

/-- The nodes of one aggregation: a single one that is neither a leg nor the query, or legs
numbered along their labels. -/
inductive AreNodes (nodes : List Aggregation) : Prop
  | single (a : Aggregation) (hnodes : nodes = [a]) (hleg : a.isLeg = false)
      (hquery : a.isQuery = false)
  | legs (shape : LegShape) (labels : List String) (hsome : nodes ≠ [])
      (hlabels : labels.length = nodes.length)
      (hsingle : shape = .single → nodes.length = 1)
      (hlegs : ∀ i a, nodes[i]? = some a → ∃ filter, a = Aggregation.leg ⟨shape, i, labels, filter⟩)

/-- Aggregations side by side have different names. -/
def DistinctNames (_ : String) (_ : List Aggregation) (children : List Branch) : Prop :=
  (children.map name).Nodup

theorem AreNodes.ne_nil {nodes : List Aggregation} (h : AreNodes nodes) : nodes ≠ [] := by
  cases h with
  | single a hnodes => simp [hnodes]
  | legs shape labels hsome => exact hsome

/-- No aggregation below the top is the query. -/
theorem AreNodes.isQuery {nodes : List Aggregation} (h : AreNodes nodes) :
    ∀ a ∈ nodes, a.isQuery = false := by
  intro a ha
  cases h with
  | single b hnodes hleg hquery =>
      rw [hnodes, List.mem_singleton] at ha
      exact ha ▸ hquery
  | legs shape labels hsome hlabels hsingle hlegs =>
      obtain ⟨i, hi⟩ := List.getElem?_of_mem ha
      obtain ⟨filter, rfl⟩ := hlegs i a hi
      rfl

end Branch

namespace Request

open Branch

/-- A lone leg is numbered along its only label. -/
theorem areNodes_legOf (now : Calendar.Instant) (shape : LegShape) (label : String)
    (clause : Json) : AreNodes [Aggregation.legOf now shape 0 [label] clause] := by
  refine .legs shape [label] (by simp) rfl (fun _ => rfl) ?_
  intro i a ha
  cases i with
  | zero =>
      simp only [List.getElem?_cons_zero, Option.some.injEq] at ha
      exact ⟨_, ha.symm⟩
  | succ i => simp at ha

/-- A kind other than the query gives a node that is neither, or a leg. -/
theorem areNodes_ofKind {now : Calendar.Instant} {name kind : String} {body : Json}
    {a : Aggregation} (hkind : kind ≠ "query")
    (h : Aggregation.ofKind now name kind body = .ok a) : AreNodes [a] := by
  have hmap {α : Type} {read : Except RequestError α} {f : α → Aggregation}
      (hread : read.map f = .ok a) (hleg : ∀ x, (f x).isLeg = false)
      (hquery : ∀ x, (f x).isQuery = false) : AreNodes [a] := by
    obtain ⟨x, -, rfl⟩ := exists_ok_of_map hread
    exact .single _ rfl (hleg x) (hquery x)
  unfold Aggregation.ofKind at h
  split_ifs at h
  · exact hmap h (fun _ => rfl) fun _ => rfl
  · exact hmap h (fun _ => rfl) fun _ => rfl
  · exact hmap h (fun _ => rfl) fun _ => rfl
  · exact hmap h (fun _ => rfl) fun _ => rfl
  · exact hmap h (fun _ => rfl) fun _ => rfl
  · split at h
    · exact hmap h (fun _ => rfl) fun _ => rfl
    · obtain rfl : Aggregation.legOf now .named 0 [kind] body = a := by simpa using h
      exact areNodes_legOf now .named kind body

/-- The legs of a filter aggregation are those of an object, under its keys, or those of a list,
under their positions. There is at least one. -/
theorem legsOfJson_cases {name : String} {body : Json} {shape : LegShape}
    {legs : List (String × Json)} (h : legsOfJson name body = .ok (shape, legs)) :
    legs ≠ [] ∧
      (shape = .named ∧ body.field? "filters" = some (.object legs) ∨
        shape = .anonymous ∧ ∃ items, body.field? "filters" = some (.array items) ∧
          legs = items.zipIdx.map fun (clause, i) => (toString i, clause)) := by
  unfold legsOfJson at h
  cases hfield : body.field? "filters" with
  | none => simp [hfield] at h
  | some value =>
      cases value with
      | object named =>
          simp only [hfield] at h
          split at h
          · simp at h
          · rename_i hnonempty
            obtain ⟨rfl, rfl⟩ : LegShape.named = shape ∧ named = legs := by simpa using h
            exact ⟨fun hnil => hnonempty _ (by rw [hnil]), Or.inl ⟨rfl, rfl⟩⟩
      | array items =>
          simp only [hfield] at h
          split at h
          · simp at h
          · rename_i hnonempty
            obtain ⟨rfl, hlegs⟩ := Prod.mk.injEq .. ▸ Except.ok.injEq .. ▸ h
            exact ⟨fun hnil => hnonempty _ (by rw [hlegs, hnil]),
              Or.inr ⟨rfl, items, rfl, hlegs.symm⟩⟩
      | null | bool _ | number _ | string _ => simp [hfield] at h

/-- The legs of a filter aggregation are several under names or in a list, at least one. -/
theorem legsOfJson_spec {name : String} {body : Json} {shape : LegShape}
    {legs : List (String × Json)} (h : legsOfJson name body = .ok (shape, legs)) :
    legs ≠ [] ∧ shape ≠ .single := by
  obtain ⟨hsome, ⟨rfl, -⟩ | ⟨rfl, -⟩⟩ := legsOfJson_cases h
  · exact ⟨hsome, by simp⟩
  · exact ⟨hsome, by simp⟩

/-- The nodes of an aggregation are the legs of a filter aggregation, or one node of another kind. -/
theorem nodesOfKind_cases {now : Calendar.Instant} {name kind : String} {body : Json}
    {nodes : List Aggregation} (h : nodesOfKind now name kind body = .ok nodes) :
    (∃ shape legs, legsOfJson name body = .ok (shape, legs) ∧
      nodes = legs.zipIdx.map fun ((_, clause), i) =>
        Aggregation.legOf now shape i (legs.map Prod.fst) clause) ∨
    nodes = [Aggregation.legOf now .single 0 [name] body] ∨
    ∃ a, ¬ kind = "query" ∧ Aggregation.ofKind now name kind body = .ok a ∧ nodes = [a] := by
  unfold nodesOfKind at h
  split_ifs at h with hfilters hfilter hquery
  · cases hlegs : legsOfJson name body with
    | error e => simp [hlegs, bind, Except.bind] at h
    | ok pair =>
        simp only [hlegs, bind, Except.bind, pure, Except.pure, Except.ok.injEq] at h
        exact Or.inl ⟨pair.1, pair.2, rfl, h.symm⟩
  · exact Or.inr (Or.inl (Except.ok.inj h).symm)
  · cases hkind : Aggregation.ofKind now name kind body with
    | error e => simp [hkind, bind, Except.bind] at h
    | ok a =>
        simp only [hkind, bind, Except.bind, pure, Except.pure, Except.ok.injEq] at h
        exact Or.inr (Or.inr ⟨a, hquery, rfl, h.symm⟩)

theorem areNodes_nodesOfKind {now : Calendar.Instant} {name kind : String} {body : Json}
    {nodes : List Aggregation} (h : nodesOfKind now name kind body = .ok nodes) :
    AreNodes nodes := by
  obtain ⟨shape, legs, hlegs, rfl⟩ | rfl | ⟨a, hquery, hkind, rfl⟩ := nodesOfKind_cases h
  · obtain ⟨hsome, hshape⟩ := legsOfJson_spec hlegs
    refine .legs shape (legs.map Prod.fst) (by simpa using hsome) (by simp)
      (fun hsingle => absurd hsingle hshape) ?_
    intro i a ha
    simp only [List.getElem?_map, List.getElem?_zipIdx, Option.map_map,
      Option.map_eq_some_iff, Function.comp_apply, Nat.zero_add] at ha
    obtain ⟨leg, -, rfl⟩ := ha
    exact ⟨_, rfl⟩
  · exact areNodes_legOf now .single name body
  · exact areNodes_ofKind hquery hkind

/-- The branches that are gathered are all the results. -/
theorem eq_of_gather {results : List (Except RequestError Branch)} {branches : List Branch}
    (h : gather results = .ok branches) : results = branches.map .ok := by
  induction results generalizing branches with
  | nil =>
      obtain rfl : [] = branches := by simpa [gather] using h
      rfl
  | cons result rest ih =>
      cases result with
      | error e => simp [gather, bind, Except.bind] at h
      | ok branch =>
          cases hrest : gather rest with
          | error e => simp [gather, hrest, bind, Except.bind] at h
          | ok others =>
              simp only [gather, hrest, bind, Except.bind, pure, Except.pure,
                Except.ok.injEq] at h
              rw [← h, List.map_cons, ih hrest]

/-- The order of a block rearranges its entries. -/
theorem orderedEntries_perm {α : Type} (entries : List (String × α)) :
    (orderedEntries entries).Perm (entries.map Prod.snd) := by
  let number (entry : String × α) := Text.readUnsigned64? entry.1.toList
  have hsplit : ∀ entries : List (String × α),
      ((entries.filter fun entry => (number entry).isNone).map Prod.snd ++
        (entries.filterMap fun entry => (number entry).map fun n => (n, entry.2)).map
          Prod.snd).Perm (entries.map Prod.snd) := by
    intro entries
    induction entries with
    | nil => exact List.Perm.refl _
    | cons entry rest ih =>
        cases hnumber : number entry with
        | none =>
            rw [List.filter_cons_of_pos (by simp [hnumber]),
              List.filterMap_cons_none (by simp [hnumber])]
            exact ih.cons entry.2
        | some n =>
            rw [List.filter_cons_of_neg (by simp [hnumber]),
              List.filterMap_cons_some (by simp [hnumber]; rfl)]
            exact List.perm_middle.trans (ih.cons entry.2)
  exact (((Order.sortBy_perm _ _).map Prod.snd).append_left _).trans (hsplit entries)

/-- What is looked up is there. -/
theorem mem_of_lookup {α : Type} {entries : List (String × α)} {key : String} {value : α}
    (h : entries.lookup key = some value) : (key, value) ∈ entries := by
  obtain ⟨before, after, rfl, -⟩ := List.lookup_eq_some_iff.mp h
  simp

/-- The entries of a block that may be missing are none, or those of a block that is there. -/
theorem eq_nil_or_mem_of_lookup {α : Type} {blocks : List (String × List α)}
    {block : Option String} {entries : List α}
    (h : (block.bind fun block => blocks.lookup block).getD [] = entries) :
    entries = [] ∨ ∃ found ∈ blocks, found.2 = entries := by
  cases block with
  | none => exact Or.inl (by simpa using h.symm)
  | some key =>
      cases hlookup : blocks.lookup key with
      | none => exact Or.inl (by simpa [hlookup] using h.symm)
      | some found => exact Or.inr ⟨(key, found), mem_of_lookup hlookup, by simpa [hlookup] using h⟩

/-- An object that is read has one kind and one block at most, and both are read. -/
theorem exists_of_assemble {now : Calendar.Instant} {name : String} {fields : Fields}
    {blocks : List (String × List (String × Except RequestError Branch))} {branch : Branch}
    (h : assemble now name fields blocks = .ok branch) :
    ∃ kind body block legs children,
      (fields.filter fun field => isKindName field.1) = [(kind, body)] ∧
      blockName? name fields = .ok block ∧ nodesOfKind now name kind body = .ok legs ∧
      gather (orderedEntries ((block.bind fun block => blocks.lookup block).getD [])) =
        .ok children ∧
      branch = .node name legs children := by
  unfold assemble at h
  dsimp only at h
  split at h
  · rename_i kind body hkinds
    cases hblock : blockName? name fields with
    | error e => simp [hblock, bind, Except.bind] at h
    | ok block =>
        cases hlegs : nodesOfKind now name kind body with
        | error e => simp [hblock, hlegs, bind, Except.bind] at h
        | ok legs =>
            simp only [hblock, hlegs, bind, Except.bind] at h
            generalize hentries : (block.bind fun block => blocks.lookup block).getD [] = entries
              at h
            split at h
            · simp at h
            · cases hgather : gather (orderedEntries entries) with
              | error e => simp [hgather] at h
              | ok children =>
                  simp only [hgather, pure, Except.pure, Except.ok.injEq] at h
                  exact ⟨kind, body, block, legs, children, hkinds, rfl, hlegs, hentries ▸ hgather,
                    h.symm⟩
  · simp at h

/-- What a branch is made of when its object is read. -/
theorem assemble_spec {now : Calendar.Instant} {name : String} {fields : Fields}
    {blocks : List (String × List (String × Except RequestError Branch))} {branch : Branch}
    (h : assemble now name fields blocks = .ok branch) :
    ∃ legs children, branch = .node name legs children ∧ AreNodes legs ∧
      ∃ entries : List (String × Except RequestError Branch),
        (entries = [] ∨ ∃ block ∈ blocks, block.2 = entries) ∧
        (children.map Except.ok).Perm (entries.map Prod.snd) := by
  obtain ⟨kind, body, block, legs, children, -, -, hlegs, hgather, rfl⟩ := exists_of_assemble h
  generalize hentries : (block.bind fun block => blocks.lookup block).getD [] = entries at hgather
  refine ⟨legs, children, rfl, areNodes_nodesOfKind hlegs, entries,
    eq_nil_or_mem_of_lookup hentries, ?_⟩
  rw [← eq_of_gather hgather]
  exact orderedEntries_perm entries

/-- What is shown of a branch that is read under a name, the keys being distinct or not. -/
structure IsReadAs (name : String) (distinct : Bool) (branch : Branch) : Prop where
  name : branch.name = name
  nodes : branch.Everywhere fun _ legs _ => AreNodes legs
  names : distinct = true → branch.Everywhere DistinctNames

/-- What is shown of the entries of a block. -/
structure AreReadEntries (distinct : Bool)
    (entries : List (String × Except RequestError Branch)) : Prop where
  keys : distinct = true → (entries.map Prod.fst).Nodup
  branches : ∀ entry ∈ entries, ∀ branch, entry.2 = .ok branch → IsReadAs entry.1 distinct branch

/-- The keys may be distinct in more than what is read here. -/
theorem IsReadAs.weaken {name : String} {distinct outer : Bool} {branch : Branch}
    (h : IsReadAs name distinct branch) (himp : outer = true → distinct = true) :
    IsReadAs name outer branch :=
  ⟨h.name, h.nodes, fun houter => h.names (himp houter)⟩

theorem AreReadEntries.weaken {distinct outer : Bool}
    {entries : List (String × Except RequestError Branch)} (h : AreReadEntries distinct entries)
    (himp : outer = true → distinct = true) : AreReadEntries outer entries :=
  ⟨fun houter => h.keys (himp houter),
    fun entry hentry branch heq => (h.branches entry hentry branch heq).weaken himp⟩

theorem AreReadEntries.nil (distinct : Bool) : AreReadEntries distinct [] where
  keys := by simp
  branches := by simp

/-- Branches that rearrange the results of entries have the keys of the entries as names. -/
theorem AreReadEntries.children {distinct : Bool}
    {entries : List (String × Except RequestError Branch)} {children : List Branch}
    (hentries : AreReadEntries distinct entries)
    (hchildren : (children.map Except.ok).Perm (entries.map Prod.snd)) :
    (∀ child ∈ children, ∃ name, IsReadAs name distinct child) ∧
      (distinct = true → (children.map Branch.name).Nodup) := by
  have hfound (child : Branch) (hchild : child ∈ children) :
      ∃ entry ∈ entries, entry.2 = .ok child := by
    have hmem := hchildren.mem_iff.mp (List.mem_map_of_mem (f := Except.ok) hchild)
    obtain ⟨entry, hentry, heq⟩ := List.mem_map.mp hmem
    exact ⟨entry, hentry, heq⟩
  constructor
  · intro child hchild
    obtain ⟨entry, hentry, heq⟩ := hfound child hchild
    exact ⟨entry.1, hentries.branches entry hentry child heq⟩
  · intro hdistinct
    have hok (entry) (hentry : entry ∈ entries) : ∃ child, entry.2 = .ok child := by
      have hmem := hchildren.mem_iff.mpr (List.mem_map_of_mem (f := Prod.snd) hentry)
      obtain ⟨child, -, heq⟩ := List.mem_map.mp hmem
      exact ⟨child, heq.symm⟩
    let nameOf : Except RequestError Branch → String
      | .ok branch => branch.name
      | .error _ => ""
    have hnames : (children.map Branch.name).Perm (entries.map Prod.fst) := by
      have hmap := hchildren.map nameOf
      rw [List.map_map, List.map_map] at hmap
      have hkeys : entries.map (nameOf ∘ Prod.snd) = entries.map Prod.fst := by
        apply List.map_congr_left
        intro entry hentry
        obtain ⟨child, heq⟩ := hok entry hentry
        simp only [Function.comp_apply, heq, nameOf]
        exact (hentries.branches entry hentry child heq).name
      rw [hkeys] at hmap
      exact hmap
    exact hnames.nodup_iff.mpr (hentries.keys hdistinct)

theorem readEntries_keys (now : Calendar.Instant) (fields : List (String × Json)) :
    (readEntries now fields).map Prod.fst = fields.map Prod.fst := by
  induction fields with
  | nil => rfl
  | cons field rest ih => rw [readEntries, List.map_cons, List.map_cons, ih]

open Json in
mutual

/-- A branch under its name. -/
theorem isReadAs_of_readBranch (now : Calendar.Instant) (name : String) (json : Json)
    (branch : Branch) (h : readBranch now name json = .ok branch) :
    IsReadAs name json.hasDistinctKeys branch := by
  cases json with
  | object fields =>
      rw [readBranch] at h
      obtain ⟨legs, children, rfl, hlegs, entries, hentries, hchildren⟩ := assemble_spec h
      have hread : AreReadEntries (Json.object fields).hasDistinctKeys entries := by
        rcases hentries with rfl | ⟨block, hblock, rfl⟩
        · exact AreReadEntries.nil _
        · apply (areReadEntries_of_readBlocks now fields block hblock).weaken
          intro hdistinct
          rw [hasDistinctKeys, Bool.and_eq_true] at hdistinct
          exact hdistinct.2
      obtain ⟨hall, hnames⟩ := hread.children hchildren
      refine ⟨rfl, .node hlegs ?_, fun hdistinct => .node (hnames hdistinct) ?_⟩
      · intro child hchild
        obtain ⟨childName, hchildRead⟩ := hall child hchild
        exact hchildRead.nodes
      · intro child hchild
        obtain ⟨childName, hchildRead⟩ := hall child hchild
        exact hchildRead.names hdistinct
  | null | bool _ | number _ | string _ | array _ => simp [readBranch] at h

/-- The branches of a block under their names. -/
theorem isReadAs_of_mem_readEntries (now : Calendar.Instant) (fields : List (String × Json))
    (entry : String × Except RequestError Branch) (hentry : entry ∈ readEntries now fields)
    (branch : Branch) (h : entry.2 = .ok branch) :
    IsReadAs entry.1 (fieldsHaveDistinctKeys fields) branch := by
  cases fields with
  | nil => simp [readEntries] at hentry
  | cons field rest =>
      obtain ⟨name, body⟩ := field
      have himp (hdistinct : fieldsHaveDistinctKeys ((name, body) :: rest) = true) :
          body.hasDistinctKeys = true ∧ fieldsHaveDistinctKeys rest = true := by
        rwa [fieldsHaveDistinctKeys, Bool.and_eq_true] at hdistinct
      rw [readEntries, List.mem_cons] at hentry
      rcases hentry with rfl | hentry
      · exact (isReadAs_of_readBranch now name body branch h).weaken fun hall => (himp hall).1
      · exact (isReadAs_of_mem_readEntries now rest entry hentry branch h).weaken
          fun hall => (himp hall).2

/-- The blocks of an object. -/
theorem areReadEntries_of_readBlocks (now : Calendar.Instant) (fields : List (String × Json))
    (block : String × List (String × Except RequestError Branch))
    (hblock : block ∈ readBlocks now fields) :
    AreReadEntries (fieldsHaveDistinctKeys fields) block.2 := by
  cases fields with
  | nil => simp [readBlocks] at hblock
  | cons field rest =>
      obtain ⟨name, body⟩ := field
      have himp (hdistinct : fieldsHaveDistinctKeys ((name, body) :: rest) = true) :
          body.hasDistinctKeys = true ∧ fieldsHaveDistinctKeys rest = true := by
        rwa [fieldsHaveDistinctKeys, Bool.and_eq_true] at hdistinct
      have hrest (hlater : block ∈ readBlocks now rest) :
          AreReadEntries (fieldsHaveDistinctKeys ((name, body) :: rest)) block.2 :=
        (areReadEntries_of_readBlocks now rest block hlater).weaken fun hall => (himp hall).2
      cases body with
      | object inner =>
          rw [readBlocks] at hblock
          split at hblock
          · rcases List.mem_cons.mp hblock with rfl | hlater
            · have hkeys (hdistinct :
                  fieldsHaveDistinctKeys ((name, Json.object inner) :: rest) = true) :
                  (inner.map Prod.fst).Nodup ∧ fieldsHaveDistinctKeys inner = true := by
                simpa [hasDistinctKeys] using (himp hdistinct).1
              refine ⟨fun hdistinct => ?_, ?_⟩
              · rw [readEntries_keys]
                exact (hkeys hdistinct).1
              · intro entry hentry branch heq
                exact (isReadAs_of_mem_readEntries now inner entry hentry branch heq).weaken
                  fun hall => (hkeys hall).2
            · exact hrest hlater
          · exact hrest hblock
      | null | bool _ | number _ | string _ | array _ =>
          exact hrest (by simpa [readBlocks] using hblock)

end

/-- A request that is read is an object whose query and block are read. -/
theorem exists_of_ofJson {now : Calendar.Instant} {json : Json} {request : Request}
    (h : ofJson now json = .ok request) :
    ∃ fields block, json = .object fields ∧ readQuery now fields = .ok request.query ∧
      blockName? "request" fields = .ok block ∧
      gather (orderedEntries
        ((block.bind fun block => (readBlocks now fields).lookup block).getD [])) =
          .ok request.branches := by
  cases json with
  | object fields =>
      simp only [ofJson] at h
      cases hquery : readQuery now fields with
      | error e => simp [hquery, bind, Except.bind] at h
      | ok query =>
          cases hblock : blockName? "request" fields with
          | error e => simp [hquery, hblock, bind, Except.bind] at h
          | ok block =>
              simp only [hquery, hblock, bind, Except.bind] at h
              generalize hentries :
                (block.bind fun block => (readBlocks now fields).lookup block).getD [] = entries
                at h
              cases hgather : gather (orderedEntries entries) with
              | error e => simp [hgather] at h
              | ok branches =>
                  simp only [hgather, pure, Except.pure, Except.ok.injEq] at h
                  subst h
                  exact ⟨fields, block, rfl, hquery, hblock, hentries ▸ hgather⟩
  | null | bool _ | number _ | string _ | array _ => simp [ofJson] at h

/-- The query and the branches of a request that is read. -/
theorem ofJson_spec {now : Calendar.Instant} {json : Json} {request : Request}
    (h : ofJson now json = .ok request) :
    ∃ fields, json = .object fields ∧ readQuery now fields = .ok request.query ∧
      (∀ branch ∈ request.branches, ∃ name, IsReadAs name json.hasDistinctKeys branch) ∧
      (json.hasDistinctKeys = true → (request.branches.map Branch.name).Nodup) := by
  obtain ⟨fields, block, rfl, hquery, -, hgather⟩ := exists_of_ofJson h
  generalize hentries :
    (block.bind fun block => (readBlocks now fields).lookup block).getD [] = entries at hgather
  have hread : AreReadEntries (Json.object fields).hasDistinctKeys entries := by
    rcases eq_nil_or_mem_of_lookup hentries with rfl | ⟨found, hfound, rfl⟩
    · exact AreReadEntries.nil _
    · apply (areReadEntries_of_readBlocks now fields found hfound).weaken
      intro hdistinct
      rw [Json.hasDistinctKeys, Bool.and_eq_true] at hdistinct
      exact hdistinct.2
  have hperm : (request.branches.map Except.ok).Perm (entries.map Prod.snd) := by
    rw [← eq_of_gather hgather]
    exact orderedEntries_perm entries
  exact ⟨fields, rfl, hquery, hread.children hperm⟩

/-! ## An aggregation alone -/

/-- A result that is found when errors are left out. -/
theorem eq_ok_of_toOption {ε α : Type} {result : Except ε α} {a : α}
    (h : result.toOption = some a) : result = .ok a := by
  cases result with
  | error e => cases h
  | ok b => rw [Option.some.inj h]

/-- An aggregation of a kind that is one node, with nothing inside. -/
theorem readBranch_alone {now : Calendar.Instant} {name kind : String} {body : Json}
    {a : Aggregation} (hkind : isKindName kind = true)
    (hnode : kind ∉ ["filters", "filter", "query"])
    (h : Aggregation.ofKind now name kind body = .ok a) :
    readBranch now name (.object [(kind, body)]) = .ok (.node name [a] []) := by
  have hnodes : nodesOfKind now name kind body = .ok [a] := by
    simp only [List.mem_cons, List.not_mem_nil, or_false, not_or] at hnode
    rw [nodesOfKind, if_neg hnode.1, if_neg hnode.2.1, if_neg hnode.2.2, h]
    rfl
  have hblock : blockName? name [(kind, body)] = .ok none := by
    have hother : "aggs" ≠ kind ∧ "aggregations" ≠ kind := by
      constructor <;> (rintro rfl; cases hkind)
    simp only [blockName?, blockNames, Fields.get?, List.foldlM_cons, List.foldlM_nil,
      List.lookup_cons, beq_eq_false_iff_ne.mpr hother.1, beq_eq_false_iff_ne.mpr hother.2]
    rfl
  have hkinds : [(kind, body)].filter (fun field => isKindName field.1) = [(kind, body)] := by
    simp [hkind]
  rw [readBranch, assemble, hkinds]
  dsimp only
  rw [hblock, hnodes]
  simp only [bind, Except.bind, Option.bind_none, Option.getD_none, List.isEmpty_nil, Bool.not_true,
    Bool.and_false, Bool.false_eq_true, if_false]
  rfl

/-- A request with nothing but one aggregation. -/
theorem ofJson_alone {now : Calendar.Instant} {name : String} {value : Json} {branch : Branch}
    (h : readBranch now name value = .ok branch) :
    ofJson now (.object [("aggs", .object [(name, value)])]) = .ok ⟨none, [branch]⟩ := by
  have hblocks : readBlocks now [("aggs", .object [(name, value)])] =
      [("aggs", [(name, .ok branch)])] := by
    rw [← h]
    rfl
  have hordered : orderedEntries [(name, Except.ok (ε := RequestError) branch)] = [.ok branch] :=
    List.perm_singleton.mp (orderedEntries_perm _)
  have hquery : readQuery now [("aggs", .object [(name, value)])] = .ok none := rfl
  have hblock : blockName? "request" [("aggs", .object [(name, value)])] = .ok (some "aggs") := rfl
  have hlookup : [("aggs", [(name, Except.ok (ε := RequestError) branch)])].lookup "aggs" =
      some [(name, .ok branch)] := rfl
  rw [ofJson]
  dsimp only
  rw [hquery, hblock, hblocks]
  simp only [bind, Except.bind, Option.bind_some, hlookup, Option.getD_some, hordered]
  rfl

end Request
end Rollup
