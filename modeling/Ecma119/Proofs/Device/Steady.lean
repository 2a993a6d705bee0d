import Ecma119.Device

/-!
# Devices that do not change

A device is steady if the same read comes to the same whenever it is made, whether it succeeds or
fails. The device may keep state of its own, as long as that does not show.
-/

namespace Ecma119

namespace BlockDevice

variable {δ : Type} [BlockDevice δ]

/-- The device tells and gives what `device` does, and every read leaves it in one of `states`. -/
structure AnswersLike (device : δ) (states : δ → Prop) (d : δ) : Prop where
  blockSize_eq : blockSize d = blockSize device
  blockCount_eq : blockCount d = blockCount device
  readBlocks : ∀ (first : Nat) (destination : Bytes),
    (readBlocks d first destination).outcome = (readBlocks device first destination).outcome ∧
    (readBlocks d first destination).destination =
      (readBlocks device first destination).destination ∧
    states (readBlocks d first destination).device

/-- `d` cannot be told from `device`, neither now nor after any reads. -/
def Repeats (device d : δ) : Prop :=
  ∃ states : δ → Prop, states d ∧ ∀ e, states e → AnswersLike device states e

/-- A device that repeats its answers gives those of the one that it started as, and goes on doing so. -/
theorem Repeats.answersLike {device d : δ} (h : Repeats device d) :
    AnswersLike device (Repeats device) d := by
  obtain ⟨states, hd, hstates⟩ := h
  refine ⟨(hstates d hd).blockSize_eq, (hstates d hd).blockCount_eq, ?_⟩
  intro first destination
  obtain ⟨houtcome, hbytes, hnext⟩ := (hstates d hd).readBlocks first destination
  exact ⟨houtcome, hbytes, states, hnext, hstates⟩

/-- Reading the device does not change what it gives: the same read can be made again, and comes to the
same. -/
def IsSteady (device : δ) : Prop := Repeats device device

end BlockDevice

namespace MemoryDevice

/-- The reads that are written down do not show in what a device in memory gives. -/
theorem read_withReads (d : MemoryDevice) (reads : List (Nat × Nat)) (first : Nat)
    (destination : Bytes) :
    let read := d.read first destination
    ({ d with reads } : MemoryDevice).read first destination =
      ⟨read.outcome, read.destination,
        { d with reads := (first, destination.length) :: reads }⟩ := by
  rw [MemoryDevice.read, MemoryDevice.read]
  have hbad : ({ d with reads } : MemoryDevice).badBlock? first destination.length =
      d.badBlock? first destination.length := rfl
  dsimp only
  rw [hbad]
  cases d.badBlock? first destination.length with
  | some block => rfl
  | none =>
    dsimp only
    split <;> rfl

/-- A device in memory is steady, with bad blocks and wrong claims too: its faults are always the same.
-/
theorem isSteady (d : MemoryDevice) : BlockDevice.IsSteady d := by
  refine ⟨fun e => ∃ reads, e = { d with reads }, ⟨d.reads, rfl⟩, ?_⟩
  rintro e ⟨reads, rfl⟩
  refine ⟨rfl, rfl, fun first destination => ?_⟩
  have hread : BlockDevice.readBlocks ({ d with reads } : MemoryDevice) first destination = _ :=
    read_withReads d reads first destination
  rw [hread]
  exact ⟨rfl, rfl, _, rfl⟩

end MemoryDevice

end Ecma119
