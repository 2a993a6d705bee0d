import Ecma119.File
import Ecma119.Proofs.Source.Steady

/-!
# Files on sources that agree

Readers that stand at the same place and have the same sector in their buffer read the same from
sources that agree, failures and what they leave in the buffer included.
-/

namespace Ecma119

variable {δ ε : Type} [BlockDevice δ] [BlockDevice ε] {R : SectorSource δ → SectorSource ε → Prop}
variable {carried : Error → Prop}

namespace FileReader

/-- Loading a sector does the same to readers of sources that agree, also when it fails. -/
theorem agree_load (h : SourcesAgree R) (r : FileReader) (lsn : UInt32) :
    Agrees R (r.load lsn) (r.load lsn) := by
  rw [load, load]
  split
  · exact .pure _
  · refine (h.fillSector lsn r.sector).bind fun fill => ?_
    obtain ⟨outcome, bytes⟩ := fill
    cases outcome with
    | ok => exact .pure _
    | error failure => exact .pure _

/-- A delivery is the same from sources that agree, with whatever it ends with. -/
theorem agree_deliver (h : SourcesAgree R) (r : FileReader) (want : Nat) :
    Agrees R (r.deliver want) (r.deliver want) := by
  induction want using Nat.strongRecOn generalizing r with
  | ind want ih =>
    rw [deliver, deliver]
    split
    · exact .pure _
    · split
      · exact .pure _
      · next hwant place hplace =>
        refine (agree_load h r place.lsn).bind fun loaded => ?_
        obtain ⟨outcome, r'⟩ := loaded
        cases outcome with
        | error failure => exact .pure _
        | ok =>
          have hpos := place.available_pos
          exact (ih _ (by omega) _).bind fun later => .pure _

/-- A read gives the same from sources that agree, in its count, its buffer and the reader that is left.
-/
theorem agree_read (h : SourcesAgree R) (r : FileReader) (buffer : Bytes) :
    Agrees R (r.read buffer) (r.read buffer) :=
  (agree_deliver h r buffer.length).bind fun _ => .pure _

end FileReader

namespace Entry

theorem agree_readInto (h : SourcesAgree R) (file : Entry) (buffer : Bytes) :
    Agrees R (file.readInto buffer) (file.readInto buffer) := by
  rw [readInto, readInto]
  dsimp only
  split
  · exact .pure _
  · refine (FileReader.agree_read h _ _).bind fun answer => ?_
    obtain ⟨outcome, bytes, r⟩ := answer
    cases outcome with
    | error failure => exact .pure _
    | ok count =>
      dsimp only
      split
      · exact .pure _
      · exact .pure _

theorem agree_content (h : SourcesAgree R) (file : Entry) :
    Follows R carried (file.content (δ := δ)) (file.content (δ := ε)) := by
  refine h.byteLength.follows.bind fun length => ?_
  dsimp only
  split
  case' isTrue => refine .bind (.throw _) fun _ => ?_
  all_goals
    refine (agree_readInto h file _).liftState.bind fun answer => ?_
    obtain ⟨outcome, bytes⟩ := answer
    cases outcome with
    | ok count => exact .pure bytes
    | error failure => exact .throw failure

end Entry

end Ecma119
