import Ecma119.Directory.Entry
import Ecma119.Proofs.Directory.AuthoredReadBack
import Ecma119.Proofs.Directory.Chains
import Ecma119.Proofs.SystemUse.NameEntry

/-!
# Listings with alternate names

A record that is not continued makes one more entry of the listing, whatever was in the directory
before. If its system use area is one entry with a name, that name is shown, unless it has the
letters of an XA record where such a record would have them: then the name is lost, and the file is
taken for one with XA attributes.
-/

namespace Ecma119

/-! ## One record more -/

section Append

variable {opts : ListOptions} {r : DirectoryRecord}

/-- A record that is listed and not continued makes the last entry, if what stands before it can be
listed. -/
theorem assemble_concat {chain : Option Entry} {items : List WalkItem} {entries : List Entry}
    (h : assemble opts chain items = .ok entries) (hshown : (r.isDot && !opts.includeDots) = false)
    (hended : r.flags.isMultiExtent = false) (offset : Nat) :
    assemble opts chain (items ++ [.ok (offset, r)]) = .ok (entries ++ [.ofRecord opts r]) := by
  fun_induction assemble opts chain items generalizing entries with
  -- The chain is closed where a listing without the record succeeds, so the record opens none.
  | case1 =>
    cases h
    rw [List.nil_append, assemble, if_neg (by simp), if_neg (by simp [hshown]), hended]
    rfl
  | case2 => cases h
  | case3 => cases h
  | case4 => cases h
  | case5 chain _ record rest hkept hhidden ih =>
    rw [List.cons_append, assemble, if_neg hkept, if_pos hhidden]
    exact ih h
  | case6 chain _ record rest hkept hlisted ihOpen ihEnded =>
    rw [List.cons_append, assemble, if_neg hkept, if_neg hlisted]
    obtain ⟨entry, hjoin, h⟩ := except_bind_eq_ok h
    rw [hjoin]
    cases hmore : record.flags.isMultiExtent with
    | true =>
      rw [if_pos hmore] at h
      exact ihOpen entry h
    | false =>
      rw [if_neg (by simp [hmore])] at h
      obtain ⟨later, hlater, hdone⟩ := except_bind_eq_ok h
      cases hdone
      have hlater' := ihEnded hlater
      show (assemble opts none (rest ++ [.ok (offset, r)]) >>= fun later =>
        pure (entry :: later) : Except FormatError (List Entry)) = _
      rw [hlater']
      rfl

/-- A record is shown unless it is the directory's own or its parent's, whatever the options are. -/
theorem shown_of_not_isDot (hdot : r.isDot = false) :
    (r.isDot && !opts.includeDots) = false := by
  rw [hdot, Bool.false_and]

/-- The bytes of a record are a directory with one entry, if it is complete and no dot record. -/
theorem parseDirectory_encode {bytes : Bytes} (hencode : r.encode = .ok bytes)
    (hdot : r.isDot = false) (hended : r.flags.isMultiExtent = false) :
    parseDirectory opts bytes = .ok [.ofRecord opts r.recorded] := by
  have hstored := DirectoryRecord.storedAs_of_encode opts.policy hencode
  have hfit : bytes.length ≤ remainingInSector 0 := by
    have := hstored.length_le
    unfold remainingInSector sectorSize
    omega
  have hitems := Cursor.items_record hstored hfit []
  rw [List.append_nil] at hitems
  have hend : Cursor.items opts.policy ⟨0 + bytes.length, []⟩ = [] := Cursor.items_zeros _ 0
  rw [parseDirectory, recordsOf, Cursor.ofExtent, hitems, hend]
  have hnone : assemble opts none [] = .ok [] := by rw [assemble]
  exact assemble_concat (r := r.recorded) hnone (shown_of_not_isDot hdot) hended 0

/-- A record that is added to a directory is listed behind everything else, as an entry of its own. -/
theorem Authoring.Authored.parseDirectory_addRecord {extent extent' : Bytes} {stop offset : Nat}
    {records : List (Nat × DirectoryRecord)} (h : Authored opts.policy extent stop records)
    (hadd : (Authoring.addRecord r).run.run extent = (.ok offset, extent')) (hdot : r.isDot = false)
    (hended : r.flags.isMultiExtent = false) {before : List Entry}
    (hbefore : parseDirectory opts extent = .ok before) :
    parseDirectory opts extent' = .ok (before ++ [.ofRecord opts r.recorded]) := by
  rw [parseDirectory, h.recordsOf_eq] at hbefore
  rw [parseDirectory, (h.addRecord hadd).2.recordsOf_eq, List.map_append]
  exact assemble_concat (r := r.recorded) hbefore (shown_of_not_isDot hdot) hended offset

/-- A directory that has been begun can be listed under all options, before any file is added. -/
theorem Authoring.exists_parseDirectory_begun (opts : ListOptions)
    {selfExtent selfSize parentExtent parentSize : UInt32} {extent start : Bytes}
    (h : (beginDirectory selfExtent selfSize parentExtent parentSize).run.run extent =
      (.ok (), start)) : ∃ entries, parseDirectory opts start = .ok entries := by
  rw [parseDirectory, (authored_beginDirectory opts.policy h).recordsOf_eq]
  exact ⟨_, assemble_of_ended (by simp [DirectoryRecord.ofExtent, isMultiExtent_directory])⟩

end Append

/-! ## Names -/

namespace RockRidge

variable {opts : ListOptions} {r : DirectoryRecord} {name : String}

/-- The record as it reads has the entry in an area of even length. -/
theorem systemUse_recorded (harea : r.systemUse = nameEntry (Utf8.encode name)) :
    r.recorded.systemUse = evenArea (nameEntry (Utf8.encode name)) := by
  rw [← harea]
  rfl

/-- The name is short where the record can be written, as a record of 255 bytes has no room for a longer
one. -/
theorem length_le_of_encode {bytes : Bytes} (hencode : r.encode = .ok bytes)
    (harea : r.systemUse = nameEntry (Utf8.encode name)) : (Utf8.encode name).length ≤ 250 := by
  obtain ⟨hmax, -, -⟩ := DirectoryRecord.encode_eq_ok hencode
  have hlength : r.systemUse.length = 5 + (Utf8.encode name).length := by
    rw [harea, nameEntry, List.length_append]
    rfl
  rw [DirectoryRecord.encodedLength, DirectoryRecord.sizeFor, hlength] at hmax
  unfold padEven at hmax
  omega

/-- The entry of the record has XA attributes where the name looks like them, although none were written.
-/
theorem isSome_xa (opts : ListOptions) (harea : r.systemUse = nameEntry (Utf8.encode name)) :
    (Entry.ofRecord opts r.recorded).xa.isSome = true ↔ LooksLikeXa (Utf8.encode name) := by
  rw [← isSome_parse_nameEntry, ← systemUse_recorded harea]
  rfl

/-- The entry of the record has the name unless that looks like XA attributes, as Rock Ridge is asked
for. -/
theorem name_ofRecord {bytes : Bytes} (hencode : r.encode = .ok bytes) (hdot : r.isDot = false)
    (hrock : opts.rockRidge = true) (harea : r.systemUse = nameEntry (Utf8.encode name))
    (hxa : ¬ LooksLikeXa (Utf8.encode name)) : (Entry.ofRecord opts r.recorded).name = name := by
  have hdot' : r.recorded.isDot = false := hdot
  have hfound := alternateName?_nameEntry name (length_le_of_encode hencode harea) hxa
  show r.recorded.displayName opts = name
  rw [DirectoryRecord.displayName, if_neg (by simp [hdot']), hrock, if_pos rfl,
    systemUse_recorded harea, hfound]

/-- **An alternate name survives unless it looks like XA attributes.** Take a record whose system
use area is one entry with a name, and nothing else. Written on its own it is listed as one entry,
and added to any directory that can be listed it is listed as one more entry. That entry has the
name and no XA attributes, except where the name has eight bytes or more and the second and third of
them are `XA`: then it has XA attributes, which nobody recorded. -/
theorem listed_name_iff (hdot : r.isDot = false) (hended : r.flags.isMultiExtent = false)
    (hrock : opts.rockRidge = true) (harea : r.systemUse = nameEntry (Utf8.encode name))
    {bytes : Bytes} (hencode : r.encode = .ok bytes) :
    ∃ entry : Entry,
      ((entry.name = name ∧ entry.xa = none) ↔ ¬ LooksLikeXa (Utf8.encode name)) ∧
      parseDirectory opts bytes = .ok [entry] ∧
      ∀ selfExtent selfSize parentExtent parentSize extent start,
        (Authoring.beginDirectory selfExtent selfSize parentExtent parentSize).run.run extent =
          (.ok (), start) →
        (∃ entries, parseDirectory opts start = .ok entries) ∧
        ∀ calls before offset extent',
          parseDirectory opts (Authoring.performAll calls start).2 = .ok before →
          (Authoring.addRecord r).run.run (Authoring.performAll calls start).2 =
            (.ok offset, extent') →
          parseDirectory opts extent' = .ok (before ++ [entry]) := by
  refine ⟨.ofRecord opts r.recorded, ⟨?_, fun hxa => ⟨?_, ?_⟩⟩,
    parseDirectory_encode hencode hdot hended, ?_⟩
  · rintro ⟨-, hnone⟩ hxa
    have hsome := (isSome_xa opts harea).mpr hxa
    rw [hnone] at hsome
    cases hsome
  · exact name_ofRecord hencode hdot hrock harea hxa
  · rw [← Option.not_isSome_iff_eq_none, isSome_xa opts harea]
    exact hxa
  · intro selfExtent selfSize parentExtent parentSize extent start hbegun
    refine ⟨Authoring.exists_parseDirectory_begun opts hbegun, ?_⟩
    intro calls before offset extent' hbefore hadd
    obtain ⟨stop, hauthored⟩ :=
      (Authoring.authored_beginDirectory opts.policy hbegun).performAll calls
    exact hauthored.parseDirectory_addRecord hadd hdot hended hbefore

/-- A record of this name, with an identifier of its own. -/
def namedRecord (name : String) : DirectoryRecord :=
  { DirectoryRecord.ofExtent (Bytes.ofAscii "F.TXT;1") 20 3 ⟨0⟩ with
    systemUse := nameEntry (Utf8.encode name) }

/-- A directory that was begun in 200 bytes, and has a file with a name that is no identifier. -/
theorem listed_name_iff_readMe :
    let opts : ListOptions := { rockRidge := true }
    let r := namedRecord "Read me"
    let begun := (Authoring.beginDirectory 20 200 18 2048).run.run (Bytes.zeros 200)
    let added := (Authoring.addRecord r).run.run begun.2
    begun.1 = .ok () ∧ added.1 = .ok 68 ∧
      ∃ entry : Entry, entry.name = "Read me" ∧ entry.xa = none ∧
        parseDirectory opts (UInt8.ofNat r.encodedLength :: r.body) = .ok [entry] ∧
        parseDirectory opts added.2 = .ok [entry] := by
  intro opts r begun added
  have hbegun : begun.1 = .ok () :=
    eq_ok_of_toOption (by decide +kernel)
  have hadded : added.1 = .ok 68 :=
    eq_ok_of_toOption (by decide +kernel)
  have hbefore : parseDirectory opts begun.2 = .ok [] :=
    eq_ok_of_toOption (by decide +kernel)
  have hencode : r.encode = .ok (UInt8.ofNat r.encodedLength :: r.body) :=
    eq_ok_of_toOption (by decide +kernel)
  obtain ⟨entry, hname, hlisted, hauthored⟩ :=
    @listed_name_iff opts r "Read me" (by decide +kernel) (by decide +kernel) rfl rfl _ hencode
  obtain ⟨hshown, hxa⟩ := hname.mpr (by decide +kernel)
  obtain ⟨-, hadd⟩ := hauthored 20 200 18 2048 (Bytes.zeros 200) begun.2 (Prod.ext hbegun rfl)
  exact ⟨hbegun, hadded, entry, hshown, hxa, hlisted,
    hadd [] [] 68 added.2 hbefore (Prod.ext hadded rfl)⟩

/-- A name that is lost: its first bytes are read as those of XA attributes, and the identifier is
shown in its place. -/
theorem listed_name_lost :
    (parseDirectory { rockRidge := true }
        (UInt8.ofNat (namedRecord "aXAbcdefg").encodedLength :: (namedRecord "aXAbcdefg").body)).map
      (List.map fun entry => (entry.name, entry.xa)) =
        .ok [("f.txt", some ⟨0x4E4D, 0x0E01, 0x0061, 0x62⟩)] :=
  eq_ok_of_toOption (by decide +kernel)

end RockRidge

end Ecma119
