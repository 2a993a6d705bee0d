import Ecma119.Proofs.Directory.Chains
import Ecma119.Proofs.Run
import Ecma119.Proofs.Text.Ucs2
import Ecma119.Proofs.Text.Utf8

/-!
# Identifiers within a chain

The records of one file stand under the same identifier. What a listing compares is the text of the
identifiers, and there are identifiers that read the same: every ill-formed sequence of bytes reads
as the replacement character, Joliet text loses the padding at its end, and the text of a dot is
that of the directory's own record too. An identifier that spells a text is none of these, and two
that spell the same text are the same bytes. So a chain is kept apart from the records of another
file as far as identifiers spell their texts, and no further.
-/

namespace Ecma119

namespace DirectoryRecord

/-- The bytes that record a text as an identifier, in UCS-2 where the volume has Joliet names. -/
def identifierOf (joliet : Bool) (text : String) : Bytes :=
  if joliet then Ucs2.encode text else Utf8.encode text

/-- The identifier of the record is the bytes of a text, without padding behind it, and not one of
the two that stand for directories. -/
structure Spells (joliet : Bool) (r : DirectoryRecord) (text : String) : Prop where
  notDot : r.isDot = false
  name : r.name = identifierOf joliet text
  unpadded : joliet = true → ∀ c ∈ text.toList.getLast?, Ucs2.isPadding c = false

/-- The identifier of the record spells some text. -/
def IsSpelled (joliet : Bool) (r : DirectoryRecord) : Prop := ∃ text, r.Spells joliet text

variable {joliet : Bool} {r s : DirectoryRecord}

/-- What an identifier spells is what it reads as, in UTF-8 or in UCS-2. -/
theorem rawName_of_spells {text : String} (h : r.Spells joliet text) : r.rawName joliet = text := by
  have hdot : r.isSelf = false ∧ r.isParent = false := by simpa [isDot] using h.notDot
  rw [rawName, hdot.1, hdot.2, h.name, identifierOf]
  cases joliet with
  | false => exact Utf8.decodeLossy_encode text
  | true => exact Ucs2.decode_encode_of_unpadded (h.unpadded rfl)

/-- Identifiers that spell texts are the same byte for byte where they read the same. -/
theorem name_eq_of_rawName_eq (hr : r.IsSpelled joliet) (hs : s.IsSpelled joliet)
    (h : r.rawName joliet = s.rawName joliet) : r.name = s.name := by
  obtain ⟨text, hr⟩ := hr
  obtain ⟨text', hs⟩ := hs
  rw [rawName_of_spells hr, rawName_of_spells hs] at h
  rw [hr.name, hs.name, h]

end DirectoryRecord

/-! ## One record behind an open chain -/

section Next

variable {opts : ListOptions} {chain records : List DirectoryRecord}
variable {groups : List (List DirectoryRecord)} {next : DirectoryRecord}

/-- A record that is not of a directory itself or of its parent disturbs no file, wherever it stands. -/
theorem Undisturbed.concat (h : Undisturbed opts [] records) (hdot : next.isDot = false) :
    Undisturbed opts [] (records ++ [next]) := by
  intro before dot after hrecords hisDot
  rcases List.eq_nil_or_concat after with rfl | ⟨init, last, rfl⟩
  · obtain ⟨-, hlast⟩ := List.append_inj' hrecords rfl
    rw [← List.singleton_inj.mp hlast, hdot] at hisDot
    cases hisDot
  · rw [List.concat_eq_append, ← List.cons_append, ← List.append_assoc] at hrecords
    obtain ⟨hbefore, -⟩ := List.append_inj' hrecords rfl
    exact h before dot init hbefore hisDot

/-- A record like those of the open chain is one of them: it is to be continued itself, or the group
is whole. -/
theorem Splits.concat (h : Splits opts records groups chain) (hdot : next.isDot = false)
    (halike : ∀ r ∈ chain, r.Alike opts next) :
    if next.flags.isMultiExtent then Splits opts (records ++ [next]) groups (chain ++ [next])
    else Splits opts (records ++ [next]) (groups ++ [chain ++ [next]]) [] := by
  have hparts : [] ++ listed opts (records ++ [next]) = groups.flatten ++ (chain ++ [next]) := by
    have hnext : listed opts [next] = [next] := by simp [listed, hdot]
    rw [listed, List.filter_append, ← List.append_assoc, ← List.append_assoc]
    exact congrArg₂ (· ++ ·) h.parts hnext
  have hundisturbed := h.undisturbed.concat hdot
  split
  · next hmore => exact ⟨hparts, h.whole, h.unfinished.append halike hmore, hundisturbed⟩
  · next hmore =>
    refine ⟨by simp [hparts], fun group hgroup => ?_, .nil, hundisturbed⟩
    rcases List.mem_append.mp hgroup with hgroup | hgroup
    · exact h.whole group hgroup
    · rw [List.mem_singleton.mp hgroup]
      exact h.unfinished.close halike (by simpa using hmore)

/-- A listing fails at a record that does not go with the chain that is open before it. -/
theorem parseDirectory_of_unlike {extent : Bytes} {before : List (Nat × DirectoryRecord)}
    {tail : List WalkItem} {offset : Nat}
    (hwalk : recordsOf opts.policy extent = before.map .ok ++ .ok (offset, next) :: tail)
    (h : Splits opts (before.map Prod.snd) groups chain) (hne : chain ≠ [])
    (hunlike : next.isDot = true ∨ ∃ r ∈ chain, ¬ r.Alike opts next) :
    parseDirectory opts extent = .error .multiExtentMismatch := by
  obtain ⟨entries, -, hrun⟩ := exists_entries_of_splits hwalk h
  have hbroken : assemble opts (openEntry opts chain) (.ok (offset, next) :: tail) =
      .error .multiExtentMismatch := by
    by_cases hdot : next.isDot = true
    · exact assemble_dot hdot hne offset tail
    · have hlisted : listed opts [next] = [next] := by simp [listed, hdot]
      have hnot : ¬ ∀ r ∈ chain, r.Alike opts next := by simpa using hunlike.resolve_left hdot
      rw [assemble_shown (fun h => absurd h hdot) hlisted, joinTo_openEntry_error h.unfinished hnot]
      rfl
  rw [hrun, hbroken]
  rfl

end Next

/-! ## Listings -/

/-- **Records are merged by the texts of their identifiers.** Where a listing succeeds, the records
of an entry all read the same, and those that spell their texts have the same identifier. A record
behind an open chain makes the listing fail if it is one of a directory itself or of its parent, if
it reads differently from a record of the chain or is of another kind, and so if the two spell texts
and have different identifiers. In every other case it joins the chain, whatever the bytes of its
identifier are. -/
theorem parseDirectory_merges (opts : ListOptions) (extent : Bytes) :
    ∃ (items : List (Nat × DirectoryRecord)) (fault : Option FormatError),
      recordsOf opts.policy extent = items.map .ok ++ (fault.map .error).toList ∧
      (∀ entries, parseDirectory opts extent = .ok entries →
        ∃ groups, Splits opts (items.map Prod.snd) groups [] ∧
          List.Forall₂ (IsEntryOf opts) groups entries ∧
          ∀ group ∈ groups, ∀ r ∈ group, ∀ s ∈ group,
            r.rawName opts.joliet = s.rawName opts.joliet ∧
            (r.IsSpelled opts.joliet → s.IsSpelled opts.joliet → r.name = s.name)) ∧
      ∀ before offset next after groups chain, items = before ++ (offset, next) :: after →
        Splits opts (before.map Prod.snd) groups chain → chain ≠ [] →
        (next.isDot = true ∨ (∃ r ∈ chain, ¬ r.Alike opts next) →
          parseDirectory opts extent = .error .multiExtentMismatch) ∧
        (next.IsSpelled opts.joliet →
          (∃ r ∈ chain, r.IsSpelled opts.joliet ∧ r.name ≠ next.name) →
          parseDirectory opts extent = .error .multiExtentMismatch) ∧
        (next.isDot = false → (∀ r ∈ chain, r.Alike opts next) →
          if next.flags.isMultiExtent then
            Splits opts (before.map Prod.snd ++ [next]) groups (chain ++ [next])
          else Splits opts (before.map Prod.snd ++ [next]) (groups ++ [chain ++ [next]]) []) := by
  obtain ⟨items, fault, hwalk⟩ := Cursor.items_eq_records opts.policy (.ofExtent extent)
  refine ⟨items, fault, hwalk, fun entries hlisted => ?_, ?_⟩
  · obtain ⟨-, groups, hsplit, hentries⟩ := splits_of_parseDirectory hwalk hlisted
    refine ⟨groups, hsplit, hentries, ?_⟩
    intro group hgroup r hr s hs
    have hread := ((hsplit.whole group hgroup).alike r hr s hs).1
    exact ⟨hread, fun hr hs => DirectoryRecord.name_eq_of_rawName_eq hr hs hread⟩
  · rintro before offset next after groups chain rfl hsplit hne
    rw [List.map_append, List.append_assoc] at hwalk
    have hunlike := parseDirectory_of_unlike hwalk hsplit hne
    refine ⟨hunlike, ?_, hsplit.concat⟩
    rintro hnext ⟨r, hmem, hr, hname⟩
    refine hunlike (.inr ⟨r, hmem, fun halike => hname ?_⟩)
    exact DirectoryRecord.name_eq_of_rawName_eq hr hnext halike.1

/-- Two records of which the first is to be continued. Their identifiers are two names in Latin-1
that start with different letters. -/
def latinParts : List DirectoryRecord :=
  [.ofExtent [0xC4, 0x2E, 0x42, 0x49, 0x4E] 20 2048 ⟨0x80⟩,
    .ofExtent [0xD6, 0x2E, 0x42, 0x49, 0x4E] 21 100 ⟨0⟩]

def latinExtent : Bytes := latinParts.flatMap fun r => UInt8.ofNat r.encodedLength :: r.body

/-- The records have different identifiers and make one entry, since neither letter is UTF-8. -/
theorem parseDirectory_merges_latin :
    (recordsOf .strict latinExtent).map Except.toOption =
        [some (0, latinParts[0]), some (38, latinParts[1])] ∧
      latinParts[0].name ≠ latinParts[1].name ∧
      (parseDirectory {} latinExtent).map (List.map fun e => (e.rawName, e.extents)) =
        .ok [("\uFFFD.BIN", [⟨20, 2048⟩, ⟨21, 100⟩])] :=
  ⟨by decide +kernel, by decide, eq_ok_of_toOption (by decide +kernel)⟩

end Ecma119
