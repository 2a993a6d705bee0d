import Ecma119.Proofs.Directory.Chains
import Ecma119.Proofs.Run
import Ecma119.Proofs.SystemUse.NameEntry

/-!
# The case of names

Where Rock Ridge names take the place of identifiers, a name is shown as it is. A record without one is
shown under its identifier, and then Joliet alone decides on the case, as on any other volume: capital
letters become small. So the case of a name is lost where it would be kept if all names of such a volume
were treated alike (`ShownAs.cased`).
-/

namespace Ecma119

namespace Name

/-- Only a capital letter is changed where case is dropped; other characters are shown as they are. -/
theorem toLower_eq_self_iff {c : Char} : c.toLower = c ↔ c.isUpper = false := by
  have hupper : c.isUpper = decide (c.val ≥ 'A'.val ∧ c.val ≤ 'Z'.val) := rfl
  rw [hupper, decide_eq_false_iff_not]
  by_cases hcapital : c.val ≥ 'A'.val ∧ c.val ≤ 'Z'.val
  · have hval : c.toLower.val = c.val + ('a'.val - 'A'.val) := congrArg Char.val (dif_pos hcapital)
    refine ⟨fun hsame => ?_, fun hother => absurd hcapital hother⟩
    rw [hsame] at hval
    exact absurd (UInt32.left_eq_add.mp hval) (by decide)
  · exact ⟨fun _ => hcapital, fun _ => dif_neg hcapital⟩

/-- A character is shown alike with and without Rock Ridge exactly if it is no upper-case letter. -/
theorem displayChar_eq_iff {c : Char} :
    displayChar false c = displayChar true c ↔ c.isUpper = false := by
  rw [displayChar, displayChar]
  by_cases hsemicolon : c = ';'
  · subst hsemicolon
    exact ⟨fun _ => rfl, fun _ => rfl⟩
  · rw [if_neg hsemicolon, if_neg hsemicolon]
    exact toLower_eq_self_iff

/-- Identifiers without capital letters are shown the same with their case and without. -/
theorem display_eq_iff (name : String) :
    display false name = display true name ↔
      ∀ c ∈ (stripVersion name).toList, c.isUpper = false := by
  rw [display, display, String.ofList_inj, List.map_inj_left, stripVersion, String.toList_ofList]
  exact forall₂_congr fun c _ => displayChar_eq_iff

end Name

open RockRidge (alternateName?)

/-- The name of a record with the case that it has: the alternate name, or else the identifier without its
version. -/
def DirectoryRecord.casedName (r : DirectoryRecord) : String :=
  match alternateName? r.systemUse with
  | some alternate => alternate.name
  | none => Name.display true (r.rawName false)

/-- How the entry of a record, or of records of which this is the first, is shown where Rock Ridge names
take the place of identifiers. -/
structure ShownAs (first : DirectoryRecord) (e : Entry) : Prop where
  alternate : ∀ alternate ∈ alternateName? first.systemUse, e.name = alternate.name
  identifier : alternateName? first.systemUse = none → e.name = Name.display false e.rawName
  cased : e.name = first.casedName ↔
    alternateName? first.systemUse ≠ none ∨
      ∀ c ∈ (Name.stripVersion e.rawName).toList, c.isUpper = false

section Listed

variable {opts : ListOptions} {chain : List DirectoryRecord} {first : DirectoryRecord} {e : Entry}

/-- With Rock Ridge and without Joliet an entry is shown as its first record says, unless that is a dot
record. -/
theorem IsEntryOf.shownAs (h : IsEntryOf opts chain e) (hfirst : first ∈ chain.head?)
    (hdot : first.isDot = false) (hrock : opts.rockRidge = true) (hplain : opts.joliet = false) :
    ShownAs first e := by
  have hraw := h.rawName first hfirst
  have hname := h.name first hfirst
  rw [hplain] at hraw
  rw [DirectoryRecord.displayName, hdot, if_neg Bool.false_ne_true, hrock, if_pos rfl, hplain,
    ← hraw] at hname
  cases halternate : alternateName? first.systemUse with
  | some alternate =>
    rw [halternate] at hname
    have hcased : first.casedName = alternate.name := by rw [DirectoryRecord.casedName, halternate]
    refine ⟨fun other hother => ?_, fun hnone => ?_, ?_⟩
    · rw [halternate] at hother
      cases hother
      exact hname
    · rw [halternate] at hnone
      cases hnone
    · rw [hcased, halternate]
      exact ⟨fun _ => .inl (Option.some_ne_none alternate), fun _ => hname⟩
  | none =>
    rw [halternate] at hname
    have hcased : first.casedName = Name.display true e.rawName := by
      rw [DirectoryRecord.casedName, halternate, hraw]
    have hname : e.name = Name.display false e.rawName := hname
    refine ⟨fun other hother => ?_, fun _ => hname, ?_⟩
    · rw [halternate] at hother
      cases hother
    · rw [hcased, hname, halternate, Name.display_eq_iff]
      exact ⟨.inr, fun h => h.resolve_left fun hne => hne rfl⟩

/-- The entry of a record of a directory itself or of its parent is shown as a dot or two. -/
theorem IsEntryOf.name_of_isDot (h : IsEntryOf opts chain e) (hfirst : first ∈ chain.head?)
    (hdot : first.isDot = true) : e.name = e.rawName := by
  rw [h.name first hfirst, h.rawName first hfirst, DirectoryRecord.displayName, if_pos hdot]

end Listed

/-- **Where Rock Ridge keeps the case of names.** In a listing with Rock Ridge names and without Joliet,
every entry is that of a group of records, and its first record tells the name. That of a directory itself
or of its parent is a dot or two. Any other is the alternate name, if there is one, and otherwise the
identifier without its version and in small letters. So it has the case that was recorded exactly if there
is an alternate name, or no capital letter in the identifier. -/
theorem parseDirectory_case {opts : ListOptions} (hrock : opts.rockRidge = true)
    (hplain : opts.joliet = false) {extent : Bytes} {entries : List Entry}
    (hlisted : parseDirectory opts extent = .ok entries) :
    ∃ (items : List (Nat × DirectoryRecord)) (groups : List (List DirectoryRecord)),
      recordsOf opts.policy extent = items.map .ok ∧
      Splits opts (items.map Prod.snd) groups [] ∧
      List.Forall₂ (fun group e => ∀ first ∈ group.head?,
        e.rawName = first.rawName false ∧ (first.isDot = true → e.name = e.rawName) ∧
          (first.isDot = false → ShownAs first e)) groups entries := by
  obtain ⟨items, fault, hwalk⟩ := Cursor.items_eq_records opts.policy (.ofExtent extent)
  obtain ⟨rfl, groups, hsplit, hentries⟩ := splits_of_parseDirectory hwalk hlisted
  refine ⟨items, groups, hwalk.trans (List.append_nil _), hsplit, hentries.imp ?_⟩
  intro group e hentry first hfirst
  have hraw := hentry.rawName first hfirst
  rw [hplain] at hraw
  exact ⟨hraw, hentry.name_of_isDot hfirst,
    fun hdot => hentry.shownAs hfirst hdot hrock hplain⟩

/-- Two records of which only the second has an alternate name. -/
def partlyNamed : List DirectoryRecord :=
  [.ofExtent (Bytes.ofAscii "README.TXT;1") 20 3 ⟨0⟩,
    { DirectoryRecord.ofExtent (Bytes.ofAscii "NOTES.TXT;1") 21 3 ⟨0⟩ with
      systemUse := RockRidge.nameEntry (Utf8.encode "Notes.txt") }]

def partlyNamedExtent : Bytes := partlyNamed.flatMap fun r => UInt8.ofNat r.encodedLength :: r.body

/-- Each of the two entries is shown as it should be: one under its Rock Ridge name, one in small
letters. -/
theorem parseDirectory_case_partlyNamed :
    ∃ (entries : List Entry) (groups : List (List DirectoryRecord)),
      parseDirectory { rockRidge := true } partlyNamedExtent = .ok entries ∧ entries.length = 2 ∧
      List.Forall₂ (fun group e => ∀ first ∈ group.head?, first.isDot = false → ShownAs first e)
        groups entries := by
  have hlisted : parseDirectory { rockRidge := true } partlyNamedExtent =
      .ok (partlyNamed.map (Entry.ofRecord { rockRidge := true })) :=
    eq_ok_of_toOption (by decide +kernel)
  obtain ⟨items, groups, -, -, hshown⟩ := parseDirectory_case rfl rfl hlisted
  exact ⟨_, groups, hlisted, rfl, hshown.imp fun group e h first hfirst => (h first hfirst).2.2⟩

/-- The first of them has no alternate name, and the case of its identifier is lost. -/
theorem parseDirectory_loses_case :
    (parseDirectory { rockRidge := true } partlyNamedExtent).map (List.map Entry.name) =
        .ok ["readme.txt", "Notes.txt"] ∧
      partlyNamed.map DirectoryRecord.casedName = ["README.TXT", "Notes.txt"] ∧
      partlyNamed.map (fun r => alternateName? r.systemUse) =
        [none, some ⟨0, "Notes.txt"⟩] :=
  ⟨eq_ok_of_toOption (by decide +kernel), by decide +kernel, by decide +kernel⟩

end Ecma119
