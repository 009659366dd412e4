/-
# The tables of a target

The daemon is asked for the tables of every pattern of a target, and then for the attributes of
every table that was found. As long as it lists the tables that are like a pattern and describes its
own tables, whatever it does meanwhile, the tables found are those whose names the patterns become,
each once and in order.
-/

import Rollup.Daemon.Client
import Rollup.Proofs.Daemon.Patterns
import Rollup.Proofs.Number.ReadBack
import Rollup.Proofs.Sorting

namespace Rollup

/-! ## Targets -/

namespace Text

/-- Parts without the separator are found again between separators. -/
theorem split_intercalate {separator : Char} {parts : List (List Char)} (hsome : parts ≠ [])
    (hparts : ∀ part ∈ parts, separator ∉ part) :
    split separator ([separator].intercalate parts) = parts := by
  have hlast {part : List Char} (hpart : separator ∉ part) : split separator part = [part] := by
    induction part with
    | nil => rfl
    | cons c rest ih =>
        have hc : c ≠ separator := fun h => hpart (by simp [h])
        rw [split, if_neg hc, ih fun hmem => hpart (List.mem_cons_of_mem c hmem)]
  have hfirst {part : List Char} (hpart : separator ∉ part) (rest : List Char) :
      split separator (part ++ separator :: rest) = part :: split separator rest := by
    induction part with
    | nil => rw [List.nil_append, split, if_pos rfl]
    | cons c part ih =>
        have hc : c ≠ separator := fun h => hpart (by simp [h])
        rw [List.cons_append, split, if_neg hc, ih fun hmem => hpart (List.mem_cons_of_mem c hmem)]
  induction parts with
  | nil => exact absurd rfl hsome
  | cons part rest ih =>
      have hpart := hparts part List.mem_cons_self
      cases rest with
      | nil => simpa using hlast hpart
      | cons next others =>
          have hrest := ih (List.cons_ne_nil _ _) fun other hother =>
            hparts other (List.mem_cons_of_mem part hother)
          rw [List.intercalate_cons_cons, List.append_assoc, List.singleton_append, hfirst hpart,
            hrest]

theorem trim_append {before chars after : List Char} (hbefore : ∀ c ∈ before, isBlank c = true)
    (hchars : ∀ c ∈ chars, isBlank c = false) (hafter : ∀ c ∈ after, isBlank c = true) :
    trim (before ++ chars ++ after) = chars := by
  have hstart {blanks : List Char} (hblanks : ∀ c ∈ blanks, isBlank c = true) (rest : List Char) :
      trimStart (blanks ++ rest) = trimStart rest :=
    List.dropWhile_append_of_pos hblanks
  have hafterReversed : ∀ c ∈ after.reverse, isBlank c = true :=
    fun c hc => hafter c (List.mem_reverse.mp hc)
  rw [trim, List.append_assoc, hstart hbefore]
  cases chars with
  | nil =>
      have hnone := hstart hafter []
      rw [List.append_nil] at hnone
      rw [List.nil_append, hnone]
      rfl
  | cons c rest =>
      rw [List.cons_append, trimStart_of_not_isBlank (hchars c List.mem_cons_self),
        ← List.cons_append, List.reverse_append, hstart hafterReversed]
      have hkept := trim_of_not_isBlank hchars
      rwa [trim, trimStart_of_not_isBlank (hchars c List.mem_cons_self)] at hkept

end Text

namespace Daemon

open TablePattern

theorem IsSafeChar.isBlank_eq {c : Char} (h : IsSafeChar c) : Text.isBlank c = false := by
  have hrange : 33 ≤ c.toNat ∧ c.toNat ≤ 122 := by
    rcases Bool.or_eq_true_iff.mp h with halphanum | hmark
    · rcases Bool.or_eq_true_iff.mp halphanum with halpha | hdigit
      · rcases Bool.or_eq_true_iff.mp halpha with hupper | hlower
        · have hletter : 65 ≤ c.toNat ∧ c.toNat ≤ 90 := of_decide_eq_true hupper
          omega
        · have hletter : 97 ≤ c.toNat ∧ c.toNat ≤ 122 :=
            (Bool.and_eq_true_iff.mp hlower).imp of_decide_eq_true of_decide_eq_true
          omega
      · have hfigure : 48 ≤ c.toNat ∧ c.toNat ≤ 57 := Char.isDigit_iff_toNat.mp hdigit
        omega
    · have hmarks : ∀ d ∈ ['_', '.', '*', '-'], 33 ≤ d.toNat ∧ d.toNat ≤ 122 := by simp
      exact hmarks c (List.contains_iff_mem.mp hmark)
  simp only [Text.isBlank, Text.blankRanges, List.any_cons, List.any_nil, Bool.or_false,
    Bool.or_eq_false_iff, Bool.and_eq_false_iff, decide_eq_false_iff_not]
  omega

/-- A part of a target: a safe pattern, or none, with blanks around it. -/
structure TargetPart where
  before : List Char
  pattern : String
  after : List Char
  isBlank_before : ∀ c ∈ before, Text.isBlank c = true
  isBlank_after : ∀ c ∈ after, Text.isBlank c = true
  isSafe : pattern = "" ∨ isSafe pattern = true

namespace TargetPart

def chars (part : TargetPart) : List Char := part.before ++ part.pattern.toList ++ part.after

/-- Parts between commas. -/
def target (parts : List TargetPart) : String := String.ofList ([','].intercalate (parts.map chars))

/-- The patterns of parts that have one. -/
def patterns (parts : List TargetPart) : List String :=
  (parts.map pattern).filter fun pattern => !pattern.isEmpty

theorem isSafeChar (part : TargetPart) : ∀ c ∈ part.pattern.toList, IsSafeChar c := by
  rcases part.isSafe with hempty | hsafe
  · rw [hempty]
    exact nofun
  · exact isSafeChar_of_isSafe hsafe

theorem trimmed_chars (part : TargetPart) :
    Text.trimmed (String.ofList part.chars) = part.pattern := by
  rw [Text.trimmed, String.toList_ofList, chars, Text.trim_append part.isBlank_before
    (fun c hc => (part.isSafeChar c hc).isBlank_eq) part.isBlank_after, String.ofList_toList]

theorem comma_not_mem_chars (part : TargetPart) : ',' ∉ part.chars := by
  have hblank : ¬ Text.isBlank ',' = true := by decide
  intro h
  rcases List.mem_append.mp h with h | h
  · rcases List.mem_append.mp h with h | h
    · exact hblank (part.isBlank_before _ h)
    · exact absurd (part.isSafeChar _ h) (by decide)
  · exact hblank (part.isBlank_after _ h)

/-- The patterns of a target are those that were put between its commas. -/
theorem ofTarget_target (parts : List TargetPart) : ofTarget (target parts) = patterns parts := by
  cases parts with
  | nil => rfl
  | cons first rest =>
      have hsome : (first :: rest).map chars ≠ [] := List.cons_ne_nil _ _
      have hparts : ∀ part ∈ (first :: rest).map chars, ',' ∉ part := by
        intro text htext
        obtain ⟨part, -, rfl⟩ := List.mem_map.mp htext
        exact part.comma_not_mem_chars
      rw [ofTarget, Text.parts, target, String.toList_ofList, Text.split_intercalate hsome hparts,
        patterns, List.map_map, List.map_map]
      exact congrArg _ (List.map_congr_left fun part _ => part.trimmed_chars)

theorem isSafe_of_mem_patterns {parts : List TargetPart} {pattern : String}
    (h : pattern ∈ patterns parts) : Daemon.isSafe pattern = true := by
  obtain ⟨hmem, hsome⟩ := List.mem_filter.mp h
  obtain ⟨part, -, rfl⟩ := List.mem_map.mp hmem
  exact part.isSafe.resolve_left fun hempty => by simp [hempty] at hsome

end TargetPart

/-! ## Names -/

theorem mem_addNames_iff {pattern name : String} {names : List String} {rows : List Fields} :
    name ∈ addNames pattern names rows ↔
      name ∈ names ∨ (name ∈ rows.filterMap listedName? ∧ isMatch pattern name = true) := by
  unfold addNames
  induction rows.filterMap listedName? generalizing names with
  | nil => simp
  | cons listed rest ih =>
      rw [List.foldl_cons, ih, List.mem_cons]
      split
      · rename_i hadded
        have hmatch := (Bool.and_eq_true_iff.mp hadded).1
        rw [List.mem_append, List.mem_singleton]
        constructor
        · rintro ((h | rfl) | h)
          · exact Or.inl h
          · exact Or.inr ⟨Or.inl rfl, hmatch⟩
          · exact Or.inr ⟨Or.inr h.1, h.2⟩
        · rintro (h | ⟨rfl | h, hname⟩)
          · exact Or.inl (Or.inl h)
          · exact Or.inl (Or.inr rfl)
          · exact Or.inr ⟨h, hname⟩
      · rename_i hkept
        constructor
        · exact Or.imp_right (And.imp_left Or.inr)
        · rintro (h | ⟨rfl | h, hname⟩)
          · exact Or.inl h
          · exact Or.inl (by simpa [hname] using hkept)
          · exact Or.inr ⟨h, hname⟩

theorem nodup_addNames {pattern : String} {names : List String} {rows : List Fields}
    (h : names.Nodup) : (addNames pattern names rows).Nodup := by
  unfold addNames
  induction rows.filterMap listedName? generalizing names with
  | nil => exact h
  | cons listed rest ih =>
      rw [List.foldl_cons]
      apply ih
      split
      · rename_i hadded
        have hnew : listed ∉ names := by simpa using (Bool.and_eq_true_iff.mp hadded).2
        refine List.nodup_append.mpr ⟨h, List.pairwise_singleton _ listed, ?_⟩
        rintro name hname _ hlisted rfl
        exact hnew (List.mem_singleton.mp hlisted ▸ hname)
      · exact h

/-- Names that are all different are sorted strictly. -/
theorem pairwise_sortedNames {names : List String} (h : names.Nodup) :
    (sortedNames names).Pairwise (· < ·) := by
  have hnodup : (sortedNames names).Nodup := (Order.sortBy_perm compare names).nodup_iff.mpr h
  refine List.Pairwise.imp₂ (fun a b hle hne => ?_) (Order.pairwise_sortBy names) hnodup
  cases hcase : compare a b with
  | lt => exact compareOfLessAndEq_eq_lt.mp hcase
  | eq => exact absurd (Std.LawfulEqOrd.eq_of_compare hcase) hne
  | gt => rw [hcase] at hle; cases hle

theorem name_describeTable (name : String) (rows : List Fields) :
    (describeTable name rows).name = name := by
  unfold describeTable
  induction rows.filterMap describedField? using List.reverseRecOn with
  | nil => rfl
  | append_singleton before field ih => rw [List.foldl_append]; exact ih

/-! ## Asking -/

section

variable {σ α β : Type}

/-- Whether an action succeeds in every state, with a value of some kind. -/
def Returns (action : ExceptT RequestError (StateM σ) α) (p : α → Prop) : Prop :=
  ∀ s, ∃ a s', action.run.run s = (.ok a, s') ∧ p a

theorem returns_pure {p : α → Prop} {a : α} (h : p a) :
    Returns (pure a : ExceptT RequestError (StateM σ) α) p :=
  fun s => ⟨a, s, rfl, h⟩

theorem Returns.imp {action : ExceptT RequestError (StateM σ) α} {p q : α → Prop}
    (h : Returns action p) (hq : ∀ a, p a → q a) : Returns action q := by
  intro s
  obtain ⟨a, s', haction, hp⟩ := h s
  exact ⟨a, s', haction, hq a hp⟩

/-- What comes after an action is done with its value. -/
theorem Returns.bind {action : ExceptT RequestError (StateM σ) α}
    {next : α → ExceptT RequestError (StateM σ) β} {p : α → Prop} {q : β → Prop}
    (h : Returns action p) (hnext : ∀ a, p a → Returns (next a) q) :
    Returns (action >>= next) q := by
  intro s
  obtain ⟨a, middle, haction, hp⟩ := h s
  obtain ⟨b, s', hb, hq⟩ := hnext a hp middle
  refine ⟨b, s', ?_, hq⟩
  change (ExceptT.bindCont next (action.run.run s).1).run (action.run.run s).2 = _
  rw [haction]
  exact hb

end

/-- Whether a row lists a name, in one column or in the other. -/
def Lists (row : Fields) (name : String) : Prop :=
  Fields.get? row "Table" = some (.string name) ∨
    (Fields.get? row "Table" = none ∧ Fields.get? row "Index" = some (.string name))

theorem Lists.listedName?_eq {row : Fields} {name : String} (h : Lists row name) :
    listedName? row = some name := by
  unfold listedName?
  rcases h with htable | ⟨htable, hindex⟩
  · rw [htable]
    rfl
  · rw [htable, hindex]
    rfl

/-- Whether rows list tables out of some, among them all that are like a pattern. -/
structure IsListing (names : List String) (like : String) (rows : List Fields) : Prop where
  known : ∀ row ∈ rows, ∃ name ∈ names, Lists row name
  complete : ∀ name ∈ names, isLike like name = true → ∃ row ∈ rows, Lists row name

/-- Of the tables that are listed for a pattern, those are kept that the pattern becomes. -/
theorem IsListing.mem_iff {names : List String} {pattern : String} {rows : List Fields}
    (h : IsListing names (likeText pattern) rows) (hsafe : isSafe pattern = true)
    (hlines : ∀ name ∈ names, '\n' ∉ name.toList) (name : String) :
    (name ∈ rows.filterMap listedName? ∧ isMatch pattern name = true) ↔
      name ∈ names ∧ Expands pattern.toList name.toList := by
  constructor
  · rintro ⟨hlisted, hmatch⟩
    obtain ⟨row, hrow, hname⟩ := List.mem_filterMap.mp hlisted
    obtain ⟨other, hother, hlists⟩ := h.known row hrow
    obtain rfl := Option.some.inj (hname.symm.trans hlists.listedName?_eq)
    exact ⟨hother, (isMatch_iff (hlines _ hother)).mp hmatch⟩
  · rintro ⟨hname, hexpands⟩
    obtain ⟨row, hrow, hlists⟩ := h.complete name hname ((isLike_likeText_iff hsafe).mpr hexpands)
    exact ⟨List.mem_filterMap.mpr ⟨row, hrow, hlists.listedName?_eq⟩,
      (isMatch_iff (hlines name hname)).mpr hexpands⟩

namespace Client

variable {σ : Type} {client : Client (StateM σ)} {names : List String}

/-- Whether a daemon answers a statement with a result of some kind, whatever its state. -/
def Answers (client : Client (StateM σ)) (statement : String) (p : ResultSet → Prop) : Prop :=
  ∀ s, ∃ reply s' result,
    (client.connection.send (statementRequest client.base statement)).run s = (.ok reply, s') ∧
      readReply reply = .ok result ∧ p result

theorem Answers.ask {statement : String} {p : ResultSet → Prop}
    (h : client.Answers statement p) : Returns (client.ask statement) p := by
  intro s
  obtain ⟨reply, s', result, hsent, hread, hp⟩ := h s
  have hrun : (client.run statement).run s = (.ok result, s') := by
    rw [Client.run, StateT.run_bind, hsent]
    exact congrArg (·, s') hread
  refine ⟨result, s', ?_, hp⟩
  rw [Client.ask, ExceptT.run_bind, ExceptT.run_liftM, bind_map_left, StateT.run_bind, hrun]
  rfl

/-- Whether a daemon has some tables, whatever it does meanwhile: it lists those that are like a
pattern, and it describes every one. -/
structure HasTables (client : Client (StateM σ)) (names : List String) : Prop where
  lists : ∀ statement like, Statement.tokens statement =
    [.word "SHOW", .word "TABLES", .word "LIKE", .text like] →
      client.Answers statement fun result => IsListing names like result.rows
  describes : ∀ name ∈ names, client.Answers ("DESCRIBE " ++ name) fun _ => True

/-- Names that were found for some patterns, each once. -/
structure IsFound (names patterns found : List String) : Prop where
  nodup : found.Nodup
  mem_iff : ∀ name, name ∈ found ↔
    name ∈ names ∧ ∃ pattern ∈ patterns, Expands pattern.toList name.toList

section

variable (h : client.HasTables names) (hlines : ∀ name ∈ names, '\n' ∉ name.toList)
include h hlines

/-- One pattern adds the names that it becomes. -/
theorem HasTables.listNames {before found : List String} (hfound : IsFound names before found)
    {pattern : String} (hsafe : isSafe pattern = true) :
    Returns (client.listNames found pattern) (IsFound names (before ++ [pattern])) := by
  unfold Client.listNames
  rw [if_pos hsafe]
  refine (h.lists _ _ (tokens_show hsafe)).ask.bind fun listed hlisted => returns_pure ?_
  refine ⟨nodup_addNames hfound.nodup, fun name => ?_⟩
  rw [mem_addNames_iff, hfound.mem_iff, hlisted.mem_iff hsafe hlines, ← and_or_left]
  simp [or_and_right, exists_or]

theorem HasTables.foldlM_listNames {patterns before found : List String}
    (hsafe : ∀ pattern ∈ patterns, isSafe pattern = true) (hfound : IsFound names before found) :
    Returns (patterns.foldlM client.listNames found) (IsFound names (before ++ patterns)) := by
  -- on the patterns that are left; those before are what the names were found for
  induction patterns generalizing before found with
  | nil =>
      rw [List.append_nil]
      exact returns_pure hfound
  | cons pattern rest ih =>
      rw [List.foldlM_cons]
      have hfirst := h.listNames hlines hfound (hsafe pattern List.mem_cons_self)
      refine hfirst.bind fun next hnext => ?_
      have hrest := ih (fun other hother => hsafe other (List.mem_cons_of_mem _ hother)) hnext
      rwa [List.append_assoc, List.singleton_append] at hrest

end

/-- The tables that were found are described in turn. -/
theorem HasTables.mapM_describe (h : client.HasTables names) {found : List String}
    (hfound : ∀ name ∈ found, name ∈ names) :
    Returns (found.mapM client.describe) fun tables => tables.map Table.name = found := by
  induction found with
  | nil => exact returns_pure rfl
  | cons name rest ih =>
      rw [List.mapM_cons]
      have hname : Returns (client.describe name) fun table => table.name = name :=
        (h.describes name (hfound name List.mem_cons_self)).ask.bind fun described _ =>
          returns_pure (name_describeTable name described.rows)
      refine hname.bind fun table htable => ?_
      refine (ih fun other hother => hfound other (List.mem_cons_of_mem _ hother)).bind
        fun tables htables => returns_pure ?_
      rw [List.map_cons, htable, htables]

/-- The tables of a target are those whose names are what its patterns become when their stars are
replaced by texts, each once and in the order of the names. What the daemon reads for a pattern has
the same names, so that none that the pattern describes is lost. -/
theorem resolve_spec (client : Client (StateM σ)) (names : List String)
    (htables : client.HasTables names) (hlines : ∀ name ∈ names, '\n' ∉ name.toList)
    (parts : List TargetPart) :
    (∀ s, ∃ tables s', (client.resolve (TargetPart.target parts)).run.run s = (.ok tables, s') ∧
      (tables.map Table.name).Pairwise (· < ·) ∧
      ∀ name, name ∈ tables.map Table.name ↔
        name ∈ names ∧
          ∃ pattern ∈ TargetPart.patterns parts, Expands pattern.toList name.toList) ∧
      ∀ pattern, isSafe pattern = true → ∃ like,
        Statement.tokens ("SHOW TABLES LIKE '" ++ likePattern pattern ++ "'") =
          [.word "SHOW", .word "TABLES", .word "LIKE", .text like] ∧
        ∀ name, (isLike like name = true ↔ Expands pattern.toList name.toList) ∧
          (isMatch pattern name = true → isLike like name = true) := by
  constructor
  · have hnothing : IsFound names [] [] := ⟨List.nodup_nil, by simp⟩
    have hlisted : Returns ((ofTarget (TargetPart.target parts)).foldlM client.listNames [])
        (IsFound names (TargetPart.patterns parts)) := by
      rw [TargetPart.ofTarget_target]
      exact htables.foldlM_listNames hlines
        (fun _ hpattern => TargetPart.isSafe_of_mem_patterns hpattern) hnothing
    refine hlisted.bind fun found hfound => ?_
    have hsorted (name : String) : name ∈ sortedNames found ↔ name ∈ found :=
      (Order.sortBy_perm compare found).mem_iff
    have hknown : ∀ name ∈ sortedNames found, name ∈ names :=
      fun name hname => ((hfound.mem_iff name).mp ((hsorted name).mp hname)).1
    refine (htables.mapM_describe hknown).imp fun tables hnames => ⟨?_, fun name => ?_⟩
    · rw [hnames]
      exact pairwise_sortedNames hfound.nodup
    · rw [hnames, hsorted]
      exact hfound.mem_iff name
  · intro pattern hsafe
    refine ⟨likeText pattern, tokens_show hsafe, fun name => ⟨isLike_likeText_iff hsafe, ?_⟩⟩
    intro hmatch
    exact (isLike_likeText_iff hsafe).mpr (expands_of_isMatch hmatch)

/-! A daemon with two tables, one of which is like a pattern just because its underscore is
escaped. -/

def logTables : List String := ["web_logs", "webxlogs"]

def logCells (name : String) : Fields := [("Index", .string name), ("Type", .string "rt")]

def logReply (rows : List Fields) : Http.Reply :=
  ⟨200, (Json.object [("data", .array (rows.map .object))]).compact⟩

/-- What the daemon says to a statement. -/
def logAnswer (statement : String) : Except String Http.Reply :=
  match Statement.tokens statement with
  | [.word "SHOW", .word "TABLES", .word "LIKE", .text like] =>
      .ok (logReply ((logTables.filter (isLike like)).map logCells))
  | [.word "DESCRIBE", .word _] =>
      .ok (logReply [[("Field", .string "status"), ("Type", .string "uint")]])
  | _ => .error "unexpected statement"

/-- The daemon counts what it is asked. -/
def logClient : Client (StateM Nat) :=
  ⟨⟨fun request count => (logAnswer request.payload.text, count + 1)⟩, "http://127.0.0.1:9308"⟩

theorem hasTables_logClient : logClient.HasTables logTables where
  lists := by
    intro statement like htokens count
    have hanswer : logAnswer statement =
        .ok (logReply ((logTables.filter (isLike like)).map logCells)) := by
      rw [logAnswer, htokens]
      rfl
    have hread : readReply (logReply ((logTables.filter (isLike like)).map logCells)) =
        .ok ⟨(logTables.filter (isLike like)).map logCells,
          (logTables.filter (isLike like)).length⟩ := by
      unfold logTables
      cases hfirst : isLike like "web_logs" <;> cases hsecond : isLike like "webxlogs" <;>
        simp only [List.filter, hfirst, hsecond] <;> rfl
    have hlists (name : String) : Lists (logCells name) name := Or.inr ⟨rfl, rfl⟩
    refine ⟨_, count + 1, _, congrArg (·, count + 1) hanswer, hread, ?_, ?_⟩
    · intro row hrow
      obtain ⟨name, hname, rfl⟩ := List.mem_map.mp hrow
      exact ⟨name, (List.mem_filter.mp hname).1, hlists name⟩
    · intro name hname hlike
      exact ⟨logCells name, List.mem_map_of_mem (List.mem_filter.mpr ⟨hname, hlike⟩), hlists name⟩
  describes := by
    intro name hname count
    rcases List.mem_cons.mp hname with rfl | hname
    · exact ⟨_, _, _, rfl, rfl, trivial⟩
    · obtain rfl := List.mem_singleton.mp hname
      exact ⟨_, _, _, rfl, rfl, trivial⟩

def logParts : List TargetPart :=
  [⟨[], "web_*", [], nofun, nofun, by decide⟩,
    ⟨[' '], "*_logs", [], by simp [Text.isBlank_space], nofun, by decide⟩]

/-- The underscores of `web_*, *_logs` stand for themselves. -/
theorem resolve_logParts : TargetPart.target logParts = "web_*, *_logs" ∧
    ∃ tables count, (logClient.resolve (TargetPart.target logParts)).run.run 0 =
      (.ok tables, count) ∧
      "web_logs" ∈ tables.map Table.name ∧ "webxlogs" ∉ tables.map Table.name := by
  have hlines : ∀ name ∈ logTables, '\n' ∉ name.toList := by decide
  obtain ⟨tables, count, hrun, -, hmem⟩ :=
    (resolve_spec logClient logTables hasTables_logClient hlines logParts).1 0
  refine ⟨by decide, tables, count, hrun, ?_, fun hother => ?_⟩
  · refine (hmem "web_logs").mpr ⟨by decide, "web_*", by decide, ?_⟩
    exact expands_of_isMatch (by decide)
  · obtain ⟨-, pattern, hpattern, hexpands⟩ := (hmem "webxlogs").mp hother
    have hnone : ∀ pattern ∈ TargetPart.patterns logParts, isMatch pattern "webxlogs" = false := by
      decide
    have hmatch := (isMatch_iff (by decide)).mpr hexpands
    rw [hnone pattern hpattern] at hmatch
    cases hmatch

end Client

end Daemon
end Rollup
