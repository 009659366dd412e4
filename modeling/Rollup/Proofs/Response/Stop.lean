/-
# Stops of a row

A stop is a node that gets to place a row at the end of a trail. After some stops a response shows
along trails what it showed before, together with what each of the stops brings. So the order of the
stops makes no difference to which buckets there are and how many documents they have.
-/

import Mathlib.Algebra.GroupWithZero.Nat
import Rollup.Proofs.Response.Marks

namespace Rollup

/-- A node that places a row at the end of a trail. -/
structure Stop where
  trail : Trail
  node : Node
  /-- The name of the metric that the node orders its buckets by. -/
  metricName : Option String
  countColumn : String
  row : Row

namespace Stop

/-- Whether a stop is about the output with a name at the end of a trail. -/
def IsAt (stop : Stop) (trail : Trail) (name : String) : Prop :=
  stop.trail = trail ∧ stop.node.name = name

instance (stop : Stop) (trail : Trail) (name : String) : Decidable (stop.IsAt trail name) :=
  inferInstanceAs (Decidable (_ ∧ _))

/-- The bucket that the node makes for the row, or makes from the start, where a turn goes. -/
def opens? (stop : Stop) (trail : Trail) (turn : Turn) : Option (Bucket Output) :=
  if stop.IsAt trail turn.aggregation then stop.node.freshAt? stop.row turn.mark else none

/-- The documents that the node counts in the bucket that a turn goes into. -/
def docsFor (stop : Stop) (trail : Trail) (turn : Turn) : Nat :=
  if stop.IsAt trail turn.aggregation ∧ stop.node.gives stop.row turn.mark = true then
    stop.row.count stop.countColumn
  else 0

/-- What a metric makes of the tally with a name at the end of a trail. -/
def addTo (stop : Stop) (trail : Trail) (name : String) (tally? : Option Tally) : Option Tally :=
  if stop.IsAt trail name then
    match stop.node.aggregation with
    | .metric m => some ((tally?.getD (Tally.empty m.function)).addRow
        (stop.node.decisions.column.getD "") stop.countColumn stop.row)
    | _ => tally?
  else tally?

end Stop

/-- The tally of a metric. -/
def Output.tally? : Output → Option Tally
  | metric tally => some tally
  | _ => none

theorem Output.tally?_bare (output : Output) : output.bare.tally? = output.tally? := by
  cases output <;> rfl

namespace Level

/-- The tally with a name at the end of a trail. -/
def tallyOn? (root : Level) (trail : Trail) (name : String) : Option Tally :=
  (root.outputOn? trail name).bind Output.tally?

/-- What a response shows after some stops. -/
structure Gains (root after : Level) (stops : List Stop) : Prop where
  output : ∀ trail name, (after.outputOn? trail name).isSome = true ↔
    (root.outputOn? trail name).isSome = true ∨ ∃ stop ∈ stops, stop.IsAt trail name
  bucket : ∀ trail turn, (after.bucketOn? trail turn).isSome = true ↔
    (root.bucketOn? trail turn).isSome = true ∨
      ∃ stop ∈ stops, (stop.opens? trail turn).isSome = true
  origin : ∀ trail turn b, after.bucketOn? trail turn = some b →
    (∃ b', root.bucketOn? trail turn = some b' ∧ b'.id = b.id ∧ b'.key = b.key) ∨
      ∃ stop ∈ stops, ∃ fresh, stop.opens? trail turn = some fresh ∧ fresh.id = b.id ∧
        fresh.key = b.key
  docs : ∀ trail turn, after.docsOn trail turn =
    root.docsOn trail turn + (stops.map fun stop => stop.docsFor trail turn).sum
  frame : ∀ trail name output, after.outputOn? trail name = some output →
    (∃ earlier, root.outputOn? trail name = some earlier ∧ earlier.Frames output) ∨
      ∃ stop ∈ stops, stop.IsAt trail name ∧
        (stop.node.initial stop.metricName).Frames output
  tally : ∀ trail name, after.tallyOn? trail name =
    stops.foldl (fun tally stop => stop.addTo trail name tally) (root.tallyOn? trail name)

theorem Gains.refl (root : Level) : root.Gains root [] where
  output := by simp
  bucket := by simp
  origin := fun _ _ b hb => Or.inl ⟨b, hb, rfl, rfl⟩
  docs := by simp
  frame := fun _ _ output houtput => Or.inl ⟨output, houtput, Output.Frames.refl output⟩
  tally := fun _ _ => rfl

/-- Some stops after others. -/
theorem Gains.trans {root middle after : Level} {stops later : List Stop}
    (h : root.Gains middle stops) (h' : middle.Gains after later) :
    root.Gains after (stops ++ later) where
  output := by
    intro trail name
    rw [h'.output, h.output]
    simp only [List.mem_append, or_and_right, exists_or, or_assoc]
  bucket := by
    intro trail turn
    rw [h'.bucket, h.bucket]
    simp only [List.mem_append, or_and_right, exists_or, or_assoc]
  origin := by
    intro trail turn b hb
    rcases h'.origin trail turn b hb with ⟨b', hb', hid, hkey⟩ | ⟨stop, hstop, hopens⟩
    · rcases h.origin trail turn b' hb' with
        ⟨b'', hb'', hid', hkey'⟩ | ⟨stop, hstop, fresh, hfresh, hid', hkey'⟩
      · exact Or.inl ⟨b'', hb'', hid'.trans hid, hkey'.trans hkey⟩
      · exact Or.inr ⟨stop, by simp [hstop], fresh, hfresh, hid'.trans hid, hkey'.trans hkey⟩
    · exact Or.inr ⟨stop, by simp [hstop], hopens⟩
  docs := by
    intro trail turn
    rw [h'.docs, h.docs, List.map_append, List.sum_append, Nat.add_assoc]
  frame := by
    intro trail name output houtput
    rcases h'.frame trail name output houtput with ⟨middle, hmiddle, hframes⟩ | ⟨stop, hstop, hat⟩
    · rcases h.frame trail name middle hmiddle with
        ⟨earlier, hearlier, hframes'⟩ | ⟨stop, hstop, hat, hframes'⟩
      · exact Or.inl ⟨earlier, hearlier, hframes'.trans hframes⟩
      · exact Or.inr ⟨stop, by simp [hstop], hat, hframes'.trans hframes⟩
    · exact Or.inr ⟨stop, by simp [hstop], hat⟩
  tally := by
    intro trail name
    rw [h'.tally, h.tally, List.foldl_append]

section

variable {root after : Level}

/-- Every output of a response made of stops is framed as one of them starts it. -/
theorem Gains.exists_frame {stops : List Stop}
    (h : Gains [] root stops) {trail : Trail} {name : String} {output : Output}
    (houtput : root.outputOn? trail name = some output) :
    ∃ stop ∈ stops, stop.IsAt trail name ∧
      (stop.node.initial stop.metricName).Frames output := by
  rcases h.frame trail name output houtput with ⟨earlier, hearlier, -⟩ | hstop
  · cases trail <;> cases hearlier
  · exact hstop

/-- Every bucket of a response made of stops is one that a stop makes. -/
theorem Gains.exists_opens {stops : List Stop} (h : Gains [] root stops)
    {trail : Trail} {turn : Turn} {b : Bucket Output}
    (hb : root.bucketOn? trail turn = some b) :
    ∃ stop ∈ stops, ∃ fresh, stop.opens? trail turn = some fresh ∧ fresh.id = b.id ∧
      fresh.key = b.key := by
  rcases h.origin trail turn b hb with ⟨b', hb', -⟩ | hstop
  · rw [bucketOn?_empty] at hb'
    cases hb'
  · exact hstop

/-- Outputs that look the same have the same buckets, but for what is inside. -/
theorem bucketOn?_bare {trail : Trail} {turn : Turn}
    (h : (after.outputOn? trail turn.aggregation).map Output.bare =
      (root.outputOn? trail turn.aggregation).map Output.bare) :
    (after.bucketOn? trail turn).map Bucket.bare = (root.bucketOn? trail turn).map Bucket.bare := by
  have hmap (found : Option Output) :
      (found.bind fun output => output.bucketOf? turn.mark).map Bucket.bare =
        (found.map Output.bare).bind fun output => output.bucketOf? turn.mark := by
    cases found with
    | none => rfl
    | some o => simp [Output.bucketOf?_bare]
  rw [bucketOn?, bucketOn?, hmap, hmap, h]

/-- Outputs that look the same are the same tallies. -/
theorem tallyOn?_bare {trail : Trail} {name : String}
    (h : (after.outputOn? trail name).map Output.bare =
      (root.outputOn? trail name).map Output.bare) :
    after.tallyOn? trail name = root.tallyOn? trail name := by
  have hmap (found : Option Output) :
      found.bind Output.tally? = (found.map Output.bare).bind Output.tally? := by
    cases found with
    | none => rfl
    | some o => exact o.tally?_bare.symm
  rw [tallyOn?, tallyOn?, hmap, h, ← hmap]

/-- A metric adds the row to its tally; no other node makes one. -/
theorem tally?_of_placed {n : Node} {countColumn : String} {row : Row} {before : Option Output}
    {output : Output} {step : Step} (hplaced : n.Placed countColumn row before output step)
    (hbefore : ∀ earlier, before = some earlier → n.Suits earlier) (hafter : n.Suits output) :
    output.tally? =
      match n.aggregation with
      | .metric m => some (((before.bind Output.tally?).getD (Tally.empty m.function)).addRow
          (n.decisions.column.getD "") countColumn row)
      | _ => before.bind Output.tally? := by
  have hnone (hmetric : ∀ m, n.aggregation ≠ .metric m) {found : Output} (h : n.Suits found) :
      found.tally? = none := by
    have hfits := h.fits
    unfold Node.Fits at hfits
    cases found with
    | metric tally => cases haggregation : n.aggregation <;> simp_all
    | _ => rfl
  have hother (hmetric : ∀ m, n.aggregation ≠ .metric m) :
      output.tally? = before.bind Output.tally? := by
    rw [hnone hmetric hafter]
    cases before with
    | none => rfl
    | some earlier => exact (hnone hmetric (hbefore earlier rfl)).symm
  cases haggregation : n.aggregation with
  | metric m =>
      rw [hplaced.tally m haggregation]
      cases before with
      | none => rfl
      | some earlier => cases earlier <;> rfl
  | _ => exact hother (by simp [haggregation])

section

variable {stop : Stop} {output : Output}

/-- Where a stop is not, the change of its output shows nothing. -/
theorem IsChange.bare_elsewhere (hchange : IsChange root after stop.trail stop.node.name output)
    {trail : Trail} {name : String} (hnot : ¬ stop.IsAt trail name) :
    (after.outputOn? trail name).map Output.bare =
      (root.outputOn? trail name).map Output.bare :=
  hchange.elsewhere trail name fun h => hnot ⟨h.1.symm, h.2.symm⟩

/-- So the same buckets are there, but for what is inside. -/
theorem IsChange.bucketOn?_elsewhere
    (hchange : IsChange root after stop.trail stop.node.name output) {trail : Trail} {turn : Turn}
    (hnot : ¬ stop.IsAt trail turn.aggregation) :
    (after.bucketOn? trail turn).map Bucket.bare = (root.bucketOn? trail turn).map Bucket.bare :=
  bucketOn?_bare (hchange.bare_elsewhere hnot)

/-- Where the stop is, the buckets are those of the new output. -/
theorem IsChange.bucketOn?_at (hchange : IsChange root after stop.trail stop.node.name output)
    {trail : Trail} {turn : Turn} (hat : stop.IsAt trail turn.aggregation) :
    after.bucketOn? trail turn = output.bucketOf? turn.mark := by
  obtain ⟨rfl, hname⟩ := hat
  rw [bucketOn?, ← hname, hchange.at_trail, Option.bind_some]

end

/-- What one stop brings, where the output with its name is changed. -/
theorem IsChange.gains (stop : Stop) {output : Output} {step : Step}
    (hchange : IsChange root after stop.trail stop.node.name output)
    (hplaced : stop.node.Placed stop.countColumn stop.row
      (root.outputOn? stop.trail stop.node.name) output step)
    (hbefore : ∀ earlier, root.outputOn? stop.trail stop.node.name = some earlier →
      stop.node.Suits earlier)
    (hafter : stop.node.Suits output) (hlabelled : stop.node.IsLabelled)
    (hframes : ((root.outputOn? stop.trail stop.node.name).getD
      (stop.node.initial stop.metricName)).Frames output) : root.Gains after [stop] where
  output := by
    intro trail name
    simp only [List.mem_singleton, exists_eq_left]
    by_cases hat : stop.IsAt trail name
    · obtain ⟨rfl, rfl⟩ := hat
      simp [hchange.at_trail, Stop.IsAt]
    · have hsome := congrArg Option.isSome (hchange.bare_elsewhere hat)
      rw [Option.isSome_map, Option.isSome_map] at hsome
      simp [hsome, hat]
  bucket := by
    intro trail turn
    simp only [List.mem_singleton, exists_eq_left, Stop.opens?]
    by_cases hat : stop.IsAt trail turn.aggregation
    · rw [if_pos hat]
      rw [hchange.bucketOn?_at hat]
      obtain ⟨rfl, hname⟩ := hat
      rw [bucketOn?, ← hname]
      exact hplaced.isSome_bucketOf? hbefore hafter turn.mark
    · have hsome := congrArg Option.isSome (hchange.bucketOn?_elsewhere hat)
      rw [Option.isSome_map, Option.isSome_map] at hsome
      simp [hsome, hat]
  origin := by
    intro trail turn b hb
    simp only [List.mem_singleton, exists_eq_left, Stop.opens?]
    by_cases hat : stop.IsAt trail turn.aggregation
    · rw [if_pos hat]
      rw [hchange.bucketOn?_at hat] at hb
      obtain ⟨rfl, hname⟩ := hat
      rw [bucketOn?, ← hname]
      exact hplaced.exists_origin hbefore hafter hb
    · have hbare := hchange.bucketOn?_elsewhere hat
      rw [hb] at hbare
      obtain ⟨b', hb', heq⟩ := Option.map_eq_some_iff.mp hbare.symm
      exact Or.inl ⟨b', hb', by simpa [Bucket.bare] using congrArg Bucket.id heq,
        by simpa [Bucket.bare] using congrArg Bucket.key heq⟩
  docs := by
    intro trail turn
    simp only [List.map_cons, List.map_nil, List.sum_cons, List.sum_nil, Nat.add_zero, docsOn,
      Stop.docsFor]
    by_cases hat : stop.IsAt trail turn.aggregation
    · simp only [hat, true_and]
      rw [hchange.bucketOn?_at hat]
      obtain ⟨rfl, hname⟩ := hat
      rw [bucketOn?, ← hname]
      exact hplaced.docs_bucketOf? hbefore hafter hlabelled turn.mark
    · have hdocs := congrArg (Option.map Bucket.docCount) (hchange.bucketOn?_elsewhere hat)
      rw [Option.map_map, Option.map_map] at hdocs
      simp only [hat, false_and, if_false, Nat.add_zero]
      exact congrArg (fun docs => docs.getD 0) hdocs
  frame := by
    intro trail name found hfound
    simp only [List.mem_singleton, exists_eq_left]
    by_cases hat : stop.IsAt trail name
    · obtain ⟨rfl, rfl⟩ := hat
      rw [hchange.at_trail] at hfound
      obtain rfl := Option.some.inj hfound
      cases hearlier : root.outputOn? stop.trail stop.node.name with
      | none =>
          rw [hearlier] at hframes
          exact Or.inr ⟨⟨rfl, rfl⟩, hframes⟩
      | some earlier =>
          rw [hearlier] at hframes
          exact Or.inl ⟨earlier, rfl, hframes⟩
    · have hbare := hchange.bare_elsewhere hat
      rw [hfound] at hbare
      obtain ⟨earlier, hearlier, heq⟩ := Option.map_eq_some_iff.mp hbare.symm
      exact Or.inl ⟨earlier, hearlier, Output.frames_of_bare_eq heq⟩
  tally := by
    intro trail name
    simp only [List.foldl_cons, List.foldl_nil, Stop.addTo]
    by_cases hat : stop.IsAt trail name
    · rw [if_pos hat]
      obtain ⟨rfl, rfl⟩ := hat
      rw [tallyOn?, hchange.at_trail]
      exact tally?_of_placed hplaced hbefore hafter
    · rw [if_neg hat]
      exact tallyOn?_bare (hchange.bare_elsewhere hat)

end

end Level
end Rollup
