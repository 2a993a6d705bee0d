import Ecma119.Proofs.Source.Steady
import Ecma119.Proofs.Volume.SearchFirst

/-!
# What a search leaves behind

On a steady device a search that succeeds leaves the framing in use under which the volume was
confirmed, and one that fails the framing that was in use before. This holds of devices with blocks
that cannot be read too, where nothing is known of which places the search comes to see.
-/

namespace Ecma119.Volume

variable {δ : Type} [BlockDevice δ] {device : δ} {before : Framing} {s : SectorSource δ}
variable {options : MountOptions}

/-- What has been found is confirmed under the framing in use; if nothing has, any may be in use. -/
def LeftBy (options : MountOptions) (device : δ) :
    (found : Option (Framing × Volume)) → SectorSource δ → Prop
  | some (framing, volume), s =>
    checkUnder options (SectorSource.ofDevice device) framing = .ok volume ∧
      s.OnDevice device framing
  | none, s => ∃ framing, s.OnDevice device framing

/-- Confirmation under a framing comes to what it would come to on a device that has not been
read. -/
theorem confirm_onDevice (options : MountOptions) (hsteady : BlockDevice.IsSteady device)
    (hs : s.OnDevice device before) :
    ∃ s', (confirm options).run.run s =
        (checkUnder options (SectorSource.ofDevice device) before, s') ∧
      s'.OnDevice device before := by
  rw [← run_confirm]
  have hagree := SectorSource.agree_onDevice device before
  exact hs.run_eq hsteady ((hagree.sectorsFollow.reads _).confirm options)

/-- Framings are tried until one is confirmed, and that one stays in use; otherwise the one before does.
-/
theorem leftBy_confirmFirst (options : MountOptions) (hsteady : BlockDevice.IsSteady device)
    (framings : List Framing) (hs : s.OnDevice device before) :
    ∃ found s', (confirmFirst options framings).run.run s = (.ok found, s') ∧
      LeftBy options device found s' := by
  induction framings generalizing s before with
  | nil => exact ⟨none, s, run_pure none, before, hs⟩
  | cons framing rest ih =>
    have hset : (SectorSource.setFraming framing : SourceM δ Unit).run.run s =
        (.ok (), { s with framing }) := run_modify _
    obtain ⟨s₁, hconfirm, hs₁⟩ := confirm_onDevice options hsteady (hs.setFraming framing)
    rw [confirmFirst, run_bind_ok hset, run_bind_ok (run_attempt hconfirm)]
    cases hcheck : checkUnder options (SectorSource.ofDevice device) framing with
    | ok volume => exact ⟨some (framing, volume), s₁, run_pure _, hcheck, hs₁⟩
    | error failure => exact ih hs₁

/-- Looking at a window does not fail and leaves the framing in use: bytes that cannot be read give no
framings. -/
theorem framingsAt_onDevice (length : Nat) (p : Probe) (hs : s.OnDevice device before) :
    ∃ framings s', (framingsAt length p).run.run s = (.ok framings, s') ∧
      s'.OnDevice device before := by
  rw [framingsAt]
  cases p.window? length with
  | none => exact ⟨[], s, run_pure _, hs⟩
  | some window =>
    obtain ⟨first, count⟩ := window
    have hagree := SectorSource.agree_onDevice device before
    have hread := Agrees.of_follows (hagree.readBytes first count)
    obtain ⟨-, hs', -⟩ := hread s s ⟨hs, hs⟩
    cases hrun : (SectorSource.readBytes first count).run.run s with
    | mk result s' =>
      rw [hrun] at hs'
      dsimp only
      rw [run_bind_ok (run_attempt hrun)]
      cases result with
      | ok window => exact ⟨_, s', run_pure _, hs'⟩
      | error failure => exact ⟨_, s', run_pure _, hs'⟩

/-- Going through places leaves the source on its device, under the framing of what was found or the one
from before. -/
theorem leftBy_searchProbes (options : MountOptions) (hsteady : BlockDevice.IsSteady device)
    (length : Nat) (places : List Probe) (hs : s.OnDevice device before) :
    ∃ found s', (searchProbes options length places).run.run s = (.ok found, s') ∧
      LeftBy options device found s' := by
  induction places generalizing s before with
  | nil => exact ⟨none, s, run_pure none, before, hs⟩
  | cons p rest ih =>
    obtain ⟨framings, s₁, hframings, hs₁⟩ := framingsAt_onDevice length p hs
    obtain ⟨found, s₂, hconfirm, hleft⟩ := leftBy_confirmFirst options hsteady framings hs₁
    rw [searchProbes, run_bind_ok hframings, run_bind_ok hconfirm]
    cases found with
    | some found => exact ⟨some found, s₂, run_pure _, hleft⟩
    | none =>
      obtain ⟨framing, hs₂⟩ := hleft
      exact ih hs₂

/-- A search leaves the framing in use that it has found, or the one before if it has found none. -/
theorem leftBy_search (options : MountOptions) (hsteady : BlockDevice.IsSteady device)
    (limit : Nat) (hs : s.OnDevice device before) :
    (∃ framing volume s', (search options limit).run.run s = (.ok (framing, volume), s') ∧
        checkUnder options (SectorSource.ofDevice device) framing = .ok volume ∧
        s'.OnDevice device framing) ∨
      (∃ failure s', (search options limit).run.run s = (.error failure, s') ∧
        s'.OnDevice device before) := by
  have hframing : (SectorSource.getFraming : SourceM δ Framing).run.run s = (.ok before, s) := by
    rw [SectorSource.getFraming, run_bind_ok run_get, run_pure, hs.framing_eq]
  obtain ⟨s₁, hlength, hs₁⟩ := hs.run_byteLength
  rw [search, run_bind_ok hframing]
  cases hknown : BlockDevice.length? device with
  | error failure =>
    rw [hknown] at hlength
    exact .inr ⟨failure, s₁, run_bind_error hlength, hs₁⟩
  | ok length =>
    rw [hknown] at hlength
    obtain ⟨found, s₂, hsearch, hleft⟩ :=
      leftBy_searchProbes options hsteady length.toNat (probes limit) hs₁
    rw [run_bind_ok hlength, run_bind_ok hsearch]
    cases found with
    | some found =>
      obtain ⟨framing, volume⟩ := found
      exact .inl ⟨framing, volume, s₂, run_pure _, hleft⟩
    | none =>
      obtain ⟨framing, hs₂⟩ := hleft
      have hset : (SectorSource.setFraming before : SourceM δ Unit).run.run s₂ =
          (.ok (), { s₂ with framing := before }) := run_modify _
      exact .inr ⟨_, _, run_bind_ok hset, hs₂.setFraming before⟩

end Ecma119.Volume
